import LabBench.Proofs.Voltage.Codes
import LabBench.Proofs.Voltage.Conversation
/-!
# The registers of converters

When the connection to a simulated voltage source has been made, the data registers of all converters are cleared. After
that, each of them has the flipped bits of the code of the last voltage that was set on its outlet.
-/

namespace LabBench.VoltageSource

open Act LabBench.VoltageSource.Simulation Hex List Function Char

/-! ### Bits -/

theorem foldl_bits (bits : List Bool) (n : ℕ) :
    bits.foldl (fun n b => 2 * n + b.toNat) n = 2 ^ bits.length * n + ofBits bits := by
  induction bits generalizing n with
  | nil => simp [ofBits]
  | cons b bits ih =>
    rw [ofBits, foldl_cons, foldl_cons, ih, ih, length_cons]
    ring

theorem ofBits_append (bits more : List Bool) :
    ofBits (bits ++ more) = 2 ^ more.length * ofBits bits + ofBits more := by
  rw [ofBits, foldl_append, foldl_bits]
  rfl

theorem ofBits_bitsOfByte {c : Char} (h : c.toNat < 256) : ofBits (bitsOfByte c) = c.toNat := by
  have hall : ∀ k < 256, ofBits ((range 8).map fun i => k.testBit (7 - i)) = k := by decide +kernel
  exact hall c.toNat h

theorem length_bitsOfByte (c : Char) : (bitsOfByte c).length = 8 := by
  simp [bitsOfByte]

theorem ofBits_data {bits : List Bool} (h : bits.length = 24) : Command.ofBits (bitsOfByte (ofNat 0x40) ++ bits) =
      .ok { isReading := false, count := 3, register := 0, value := ofBits bits } := by
  have htake : bits.take 24 = bits := take_of_length_le h.le
  have hne : bits.isEmpty = false := by
    rw [isEmpty_eq_false_iff, ← length_pos_iff]
    omega
  have hbits : bitsOfByte (ofNat 0x40) = [false, true, false, false, false, false, false, false] :=
    rfl
  rw [hbits]
  have hval : (bits.take (8 + 8 * (1 + ofBits [true, false]) - 8)) = bits := htake
  simp only [Command.ofBits, cons_append, nil_append, drop_succ_cons, drop_zero,
    take_succ_cons, take_zero, Nat.reduceSub, hval, hne]
  rfl

variable {n : ℕ} {α : Type}

theorem encode_hex_three (h : n < 2 ^ 24) : encode (Text.hex 6 n).toList =
    [ofNat (n / 65536), ofNat (n / 256 % 256), ofNat (n % 256)] := by
  have hhigh : 16 * (n / 16 / 16 / 16 / 16 / 16 % 16) + n / 16 / 16 / 16 / 16 % 16 = n / 65536 := by omega
  have hmiddle : 16 * (n / 16 / 16 / 16 % 16) + n / 16 / 16 % 16 = n / 256 % 256 := by omega
  have hlow : 16 * (n / 16 % 16) + n % 16 = n % 256 := by omega
  rw [encode, filterMap_hex 5 (by omega)]
  simp only [nibbles, nil_append, cons_append, Hex.bytes, hhigh, hmiddle, hlow]

theorem ofBits_three (h : n < 2 ^ 24) : ofBits
    ([ofNat (n / 65536), ofNat (n / 256 % 256), ofNat (n % 256)].flatMap bitsOfByte) = n := by
  have hhigh : n / 65536 < 256 := by omega
  have hmiddle : n / 256 % 256 < 256 := by omega
  have hlow : n % 256 < 256 := by omega
  have hbyte {k : ℕ} (hk : k < 256) : ofBits (bitsOfByte (ofNat k)) = k := by
    rw [ofBits_bitsOfByte (by rwa [toNat_ofNat_byte hk]), toNat_ofNat_byte hk]
  simp only [flatMap_cons, flatMap_nil, append_nil, ofBits_append, length_append, length_bitsOfByte,
    hbyte hhigh, hbyte hmiddle, hbyte hlow]
  omega

/-! ### One entry for each outlet -/

/-- A list with an entry for each outlet. -/
def forOutlets {α : Type} (f : ℕ → α) : List α :=
  (range 16).map f

theorem getElem?_forOutlets (f : ℕ → α) {number : ℕ} (h : number < 16) : (forOutlets f)[number]? = some (f number) := by
  rw [forOutlets, getElem?_map, getElem?_range h]
  rfl

theorem length_forOutlets (f : ℕ → α) : (forOutlets f).length = 16 := by
  simp [forOutlets]

theorem modify_forOutlets (f : ℕ → α) (number : ℕ) (g : α → α) :
    (forOutlets f).modify number g = forOutlets (update f number (g (f number))) := by
  apply ext_getElem?
  intro j
  rw [getElem?_modify]
  by_cases hj : j < 16
  · rw [getElem?_forOutlets f hj, getElem?_forOutlets _ hj]
    by_cases hnum : number = j
    · subst hnum
      simp
    · simp [hnum, update_of_ne (Ne.symm hnum)]
  · have hlen (f : ℕ → α) : (forOutlets f)[j]? = none :=
      getElem?_eq_none (by rw [length_forOutlets]; omega)
    rw [hlen, hlen]
    rfl

variable {number : ℕ} {q : Quantity Float}

theorem yields_onChosen (registers : ℕ → Registers) (h : number < 16) (f : Registers → Registers) :
    Yields Simulated.memory (onChosen f) (⟨forOutlets registers, some number⟩ : Memory .sixteen) ⟨⟩
      ⟨forOutlets (update registers number (f (registers number))), some number⟩ := by
  rintro s hs
  have hcons : (Simulated.consult id : Act (Simulated (Memory .sixteen)) _) s = (.ok s.memory, s) := rfl
  have hin : ¬(forOutlets registers).length ≤ number := by
    rw [length_forOutlets]
    omega
  refine ⟨{ s with memory := ⟨forOutlets (update registers number (f (registers number))), some number⟩ },
    (bind_of_ok hcons).trans ?_, rfl⟩
  rw [hs]
  simp only
  rw [if_neg hin, ← modify_forOutlets]
  exact congrArg (fun memory : Memory .sixteen => (Except.ok PUnit.unit, { s with memory :=
    { memory with outlets := memory.outlets.modify number f } })) hs

theorem yields_obey_data (registers : ℕ → Registers) (h : number < 16) (n : ℕ) :
    Yields Simulated.memory (obey { isReading := false, count := 3, register := 0, value := n })
      (⟨forOutlets registers, some number⟩ : Memory .sixteen) ⟨⟩
      ⟨forOutlets (update registers number { registers number with data := (2 ^ 24 - 1 - n : ℕ) }), some number⟩ := by
  have hplaced : placed 3 { isReading := false, count := 3, register := 0, value := n } 0 (2 ^ 24 - 1 - n) =
      .ok (2 ^ 24 - 1 - n) := by
    simp [placed]
  exact (Yields.lift _ _ hplaced).bind (yields_onChosen registers h _)

theorem yields_obey_settings (registers : ℕ → Registers) (h : number < 16) :
    Yields Simulated.memory (obey { isReading := false, count := 2, register := 4, value := 0x20a0 })
      (⟨forOutlets registers, some number⟩ : Memory .sixteen) ⟨⟩
      ⟨forOutlets (update registers number { data := 0, resolution := some 16 }), some number⟩ := by
  have hplaced : placed 2 { isReading := false, count := 2, register := 4, value := 0x20a0 } 4 0x20a0 = .ok 0x20a0 :=
    rfl
  have hresol := yields_onChosen registers h fun r => { r with resolution := some 16 }
  have hdata := yields_onChosen (update registers number { registers number with resolution := some 16 }) h
    fun r => { r with data := 0 }
  rw [update_self, update_idem] at hdata
  exact (Yields.lift _ _ hplaced).bind (hresol.bind hdata)

/-! ### One conversation -/

/-- The outlets are as they were made, and the data registers of their converters hold the given numbers. -/
inductive Stands (data : ℕ → ℤ) : Settings × Memory .sixteen → Prop
  | intro (current : ℕ → Option Value) {registers : ℕ → Registers} (chosen : Option ℕ)
    (h : ∀ n, (registers n).data = data n) :
    Stands data (forOutlets fun n => untouched n (current n), ⟨forOutlets registers, chosen⟩)

variable {data : ℕ → ℤ} {v : Settings × Memory .sixteen} {settings : List (ℕ × Quantity Float)}

theorem data_update {registers : ℕ → Registers} (h : ∀ n, (registers n).data = data n) (r : Registers) (n : ℕ) :
    (update registers number r n).data = update data number r.data n := by
  rcases eq_or_ne n number with rfl | hn
  · simp
  · simp [update_of_ne hn, h]

theorem Stands.applySettings (h : Stands data v) (hnum : number < 16) :
    ∃ v', Yields ends (applySettings .sixteen number) v ⟨⟩ v' ∧ Stands (update data number 0) v' := by
  obtain @⟨current, registers, chosen, hdata⟩ := h
  have houtlet := getElem?_forOutlets (fun n => untouched n (current n)) hnum
  have hregister : commandRegister (untouched number (current number)) false = .ok 0x20a0 := by
    -- neither the number nor the last voltage is in the register
    have hregister : commandRegister (untouched 0 none) false = .ok 0x20a0 := rfl
    exact hregister
  have henc : encode ("24 " ++ Text.hex 4 0x20a0).toList = [ofNat 0x24, ofNat 0x20, ofNat 0xa0] := rfl
  have hbytes : IsBytes ([0x24, 0x20, 0xa0].map ofNat) := isBytes_ofNat (by decide)
  have hcmd : Command.ofBits ([ofNat 0x24, ofNat 0x20, ofNat 0xa0].flatMap bitsOfByte) =
      .ok { isReading := false, count := 2, register := 4, value := 0x20a0 } := rfl
  refine ⟨_, ?_, .intro current (some number) (data_update hdata { data := 0, resolution := some 16 })⟩
  refine (yields_outlet houtlet _).bind ((Yields.lift _ _ hregister).bind ?_)
  exact yields_converse houtlet (show number < 256 by omega) rfl henc hbytes (by simp) (by simp) hcmd
    (yields_obey_settings registers hnum)

/-- What a data register holds after a code has been set. -/
def stored (code : ℕ) : ℤ :=
  (2 ^ 24 - 1 - 16 * code : ℕ)

theorem yields_change (outlets : ℕ → Outlet) (number : ℕ) (f : Outlet → Outlet) (memory : Memory .sixteen) :
    Yields ends (change number f) (forOutlets outlets, memory) ⟨⟩
      (forOutlets (update outlets number (f (outlets number))), memory) := by
  rintro d hd
  obtain ⟨hset, rfl⟩ := Prod.mk.inj hd
  refine ⟨{ d with settings := d.settings.modify number f }, rfl, ?_⟩
  rw [ends, hset, modify_forOutlets]

theorem update_untouched (current : ℕ → Option Value) (number : ℕ) (w : Value) :
    update (fun n => untouched n (current n)) number { untouched number (current number) with current := some w } =
        fun n => untouched n (update current number (some w) n) := by
  funext n
  rcases eq_or_ne n number with rfl | hn
  · simp [untouched]
  · simp [update_of_ne hn]

/-- The code of a voltage does not depend on what has been set before. -/
theorem yields_calculate {x w : Value} {code : ℕ} (hnum : number < 16) (h : HasCode number x w code)
    (current : ℕ → Option Value) (memory : Memory .sixteen) :
    Yields ends (calculate .sixteen number x) (forOutlets fun n => untouched n (current n), memory) (code : ℤ)
      (forOutlets fun n => untouched n (update current number (some w) n), memory) := by
  obtain ⟨hadjusted, hcode⟩ := h (current number)
  have houtlet := getElem?_forOutlets (fun n => untouched n (current n)) hnum
  have hchg := yields_change (fun n => untouched n (current n)) number (fun p => { p with current := some w }) memory
  rw [update_untouched] at hchg
  exact (yields_outlet houtlet _).bind ((Yields.lift _ _ hadjusted).bind (hchg.bind (.lift _ _ hcode)))

theorem aligned_natCast {width r : ℕ} (h : r ≤ width) (n : ℕ) :
    Converter.aligned width r n = .ok ((2 ^ (width - r) * n : ℕ) : ℤ) := by
  rw [Converter.aligned, if_neg (by omega), ← Nat.cast_sub h, Int.toNat_natCast, Nat.mul_comm, Nat.cast_mul]
  rfl

theorem hexOfInt_natCast (width n : ℕ) : Converter.hexOfInt width n = Text.hex width n :=
  if_neg (by omega)

theorem codeMessage_eq {r : ℕ} (h : r ≤ 24) (n : ℕ) :
    codeMessage .sixteen r n = .ok ("40 " ++ Text.hex 6 (2 ^ (24 - r) * n)) := by
  rw [← hexOfInt_natCast]
  exact congrArg (fun x => x >>= fun k => pure ("40 " ++ Converter.hexOfInt 6 k)) (aligned_natCast h n)

theorem Stands.setVoltage {w : Value} (h : Stands data v) (hnum : number < 16)
    (hq : Permitted number q) (hn : n < 2 ^ 20) (hcode : HasCode number (.real (q.magnitude * 1.0)) w n) :
    ∃ v', Yields ends (setVoltage .sixteen number (.quantity q)) v ⟨⟩ v' ∧
      Stands (update data number (stored n)) v' := by
  obtain @⟨current, registers, chosen, hdata⟩ := h
  have hlt : 16 * n < 2 ^ 24 := by omega
  have houtlet := getElem?_forOutlets (fun k => untouched k (update current number (some w) k)) hnum
  have henc : encode ("40 " ++ Text.hex 6 (16 * n)).toList =
      [0x40, 16 * n / 65536, 16 * n / 256 % 256, 16 * n % 256].map ofNat := by
    rw [String.toList_append, encode_append (by decide), encode_hex_three hlt]
    rfl
  have hbytes : IsBytes ([0x40, 16 * n / 65536, 16 * n / 256 % 256, 16 * n % 256].map ofNat) :=
    isBytes_ofNat (by simp; omega)
  have hcmd : Command.ofBits (([0x40, 16 * n / 65536, 16 * n / 256 % 256, 16 * n % 256].map ofNat).flatMap bitsOfByte) =
        .ok { isReading := false, count := 3, register := 0, value := 16 * n } := by
    rw [map_cons, flatMap_cons, ofBits_data (by simp [length_bitsOfByte])]
    exact congrArg (fun k => Except.ok (Command.mk false 3 0 k)) (ofBits_three hlt)
  refine ⟨_, ?_, .intro (update current number (some w)) (some number)
    (data_update hdata { registers number with data := stored n })⟩
  refine (Yields.lift _ _ hq.toSetting).bind ((yields_calculate hnum hcode current _).bind ?_)
  refine (yields_outlet houtlet _).bind ((Yields.lift _ _ rfl).bind
    ((Yields.lift _ _ (codeMessage_eq (r := 20) (by decide) n)).bind ?_))
  exact yields_converse houtlet (show number < 256 by omega) rfl henc hbytes (by simp) (by simp) hcmd
    (yields_obey_data registers hnum _)

/-! ### Many conversations -/

theorem Stands.connected (h : Stands (fun _ => 0) v) :
    ∃ v', Yields ends (connected .sixteen) v ⟨⟩ v' ∧ Stands (fun _ => 0) v' := by
  refine exists_yields_forM (fun number hmem v hv => ?_) h
  have hnum := mem_range.mp hmem
  obtain ⟨v', hyields, hv'⟩ := hv.applySettings hnum
  rw [update_eq_self] at hv'
  obtain @⟨current, registers, chosen, hdata⟩ := hv
  have houtlet := getElem?_forOutlets (fun n => untouched n (current n)) hnum
  exact ⟨v', (yields_outlet houtlet _).bind hyields, hv'⟩

/-- The last of several settings that is about an outlet. -/
def lastOn (number : ℕ) (settings : List (ℕ × Quantity Float)) : Option (Quantity Float) :=
  ((settings.filter (·.1 == number)).getLast?).map (·.2)

theorem lastOn_concat (settings : List (ℕ × Quantity Float)) (number port : ℕ) (q : Quantity Float) :
    lastOn number (settings ++ [(port, q)]) = if port = number then some q else lastOn number settings := by
  unfold lastOn
  by_cases h : port = number <;> simp [h]

/-- What a data register holds after several settings: zero, or the code of the last one on its outlet. -/
structure Holds (settings : List (ℕ × Quantity Float)) (number : ℕ) (z : ℤ) : Prop where
  eq_zero : lastOn number settings = none → z = 0
  eq_stored {q : Quantity Float} : lastOn number settings = some q →
    Permitted number q ∧ ∃ w, ∃ n < 2 ^ 20, HasCode number (.real (q.magnitude * 1.0)) w n ∧ z = stored n

theorem holds_nil (number : ℕ) : Holds [] number 0 :=
  ⟨fun _ => rfl, nofun⟩

theorem Holds.concat {port : ℕ} {w : Value}
    (h : Holds settings number (data number)) (hq : Permitted port q) (hn : n < 2 ^ 20)
    (hcode : HasCode port (.real (q.magnitude * 1.0)) w n) :
    Holds (settings ++ [(port, q)]) number (update data port (stored n) number) := by
  have hlast := lastOn_concat settings number port q
  rcases eq_or_ne port number with rfl | hne
  · rw [if_pos rfl] at hlast
    rw [update_self]
    refine ⟨fun hnone => ?_, fun hsome => ?_⟩
    · cases hlast.symm.trans hnone
    · cases hlast.symm.trans hsome
      exact ⟨hq, w, n, hn, hcode, rfl⟩
  · rw [if_neg hne] at hlast
    rw [update_of_ne hne.symm]
    exact ⟨fun hnone => h.eq_zero (hlast ▸ hnone), fun hsome => h.eq_stored (hlast ▸ hsome)⟩

theorem exists_run (h : Stands (fun _ => 0) v) (hsettings : ∀ s ∈ settings, s.1 < 16 ∧ Permitted s.1 s.2) :
    ∃ v' data, Yields ends (settings.forM fun s => setVoltage .sixteen s.1 (.quantity s.2)) v ⟨⟩ v' ∧ Stands data v' ∧
      ∀ number, Holds settings number (data number) := by
  induction settings using reverseRecOn with
  | nil => exact ⟨v, _, .pure _ _ _, h, holds_nil⟩
  | append_singleton settings s ih =>
    obtain ⟨port, q⟩ := s
    obtain ⟨hport, hq⟩ := hsettings (port, q) (by simp)
    obtain ⟨v', data, hrun, hv', hholds⟩ := ih fun s hs => hsettings s (mem_append_left _ hs)
    obtain ⟨w, n, hn, hcode⟩ := hq.exists_hasCode
    obtain ⟨v'', hset, hv''⟩ := hv'.setVoltage hport hq hn hcode
    refine ⟨v'', update data port (stored n), ?_, hv'', fun number => (hholds number).concat hq hn hcode⟩
    rw [forM_eq_forM, forM_append]
    exact hrun.bind (hset.bind (.pure _ _ _))

/-! ### From the start -/

theorem stored_eq (h : n < 2 ^ 20) : stored n = (~~~(BitVec.ofInt 24 n <<< 4)).toNat := by
  rw [BitVec.toNat_not, BitVec.toNat_shiftLeft, BitVec.ofInt_natCast, BitVec.toNat_ofNat, Nat.shiftLeft_eq, stored]
  congr 1
  omega

theorem start_eq (dice : List Float) : Simulated.start dice =
    .ok ({ memory := ⟨forOutlets fun _ => {}, none⟩, dice } : Simulated (Memory .sixteen)) :=
  rfl

theorem exists_instrument (name : String) :
    ∃ i : Instrument Settings (Simulated (Memory .sixteen)), instrument .sixteen name = .ok i ∧
      i.settings = (forOutlets fun n => untouched n none) ∧ i.connected = connected .sixteen := by
  have hmake : Outlet.make .sixteen [] = fun n => pure (untouched n none) := funext make_eq
  have houtlets : (range Model.sixteen.outlets).mapM (Outlet.make .sixteen []) =
      pure (forOutlets fun n => untouched n none) := by
    rw [hmake, mapM_pure]
    rfl
  unfold instrument
  simp only [houtlets, pure_bind]
  exact ⟨_, rfl, rfl, rfl⟩

/-- A simulated source with sixteen outlets understands every voltage within the bounds. The data register of an outlet
then holds the flipped code of the last voltage, in the upper bits of a word, or zero if no voltage was set. -/
theorem data_of_settings (dice : List Float) (name : String) (settings : List (ℕ × Quantity Float))
    (h : ∀ s ∈ settings, s.1 < 16 ∧ Permitted s.1 s.2) :
    ∃ (line : Simulated (Memory .sixteen)) (i : Instrument Settings (Simulated (Memory .sixteen)))
      (d d' : Desk Settings (Simulated (Memory .sixteen))),
      Simulated.start dice = .ok line ∧ instrument .sixteen name = .ok i ∧
      i.connected { settings := i.settings, line } = (.ok ⟨⟩, d) ∧
      (settings.forM fun s => setVoltage .sixteen s.1 (.quantity s.2)) d = (.ok ⟨⟩, d') ∧
      d'.line.memory.outlets.length = 16 ∧
      ∀ (number : ℕ) (r : Registers), d'.line.memory.outlets[number]? = some r →
        (lastOn number settings = none → r.data = 0) ∧
        ∀ q, lastOn number settings = some q → ∃ x code, Quantity.toSetting "V" (.quantity q) (.real 1.0) = .ok x ∧
            (calculate .sixteen number x d').1 = .ok code ∧ 0 ≤ code ∧ code < 2 ^ 20 ∧
            r.data = (~~~(BitVec.ofInt 24 code <<< 4)).toNat := by
  obtain ⟨i, hi, hsettings, hconnected⟩ := exists_instrument name
  have hstands : Stands (fun _ => 0) (i.settings, ⟨forOutlets fun _ => {}, none⟩) := by
    rw [hsettings]
    exact .intro (fun _ => none) none fun _ => rfl
  obtain ⟨v, hconnect, hv⟩ := hstands.connected
  rw [← hconnected] at hconnect
  obtain ⟨v', data, hrun, hv', hholds⟩ := exists_run hv h
  obtain ⟨d, hd, hview⟩ := hconnect ⟨i.settings, {}, { memory := ⟨forOutlets fun _ => {}, none⟩, dice }⟩ rfl
  obtain ⟨d', hd', hview'⟩ := hrun d hview
  obtain @⟨current, registers, chosen, hdata⟩ := hv'
  have houtlets : d'.line.memory.outlets = forOutlets registers := congrArg (fun v => v.2.outlets) hview'
  have hlength : d'.line.memory.outlets.length = 16 := by rw [houtlets, length_forOutlets]
  refine ⟨_, i, d, d', start_eq dice, hi, hd, hd', hlength, fun number r hr => ?_⟩
  have hnumber : number < 16 := by
    rw [← hlength]
    exact (List.getElem?_eq_some_iff.mp hr).1
  rw [houtlets, getElem?_forOutlets registers hnumber] at hr
  obtain rfl := Option.some.inj hr
  rw [hdata]
  refine ⟨(hholds number).eq_zero, fun q hq => ?_⟩
  obtain ⟨hpermitted, w, n, hn, hcode, hstored⟩ := (hholds number).eq_stored hq
  obtain ⟨_, hcalculate, -⟩ := yields_calculate hnumber hcode current _ d' hview'
  refine ⟨_, n, hpermitted.toSetting, congrArg Prod.fst hcalculate, by omega, by omega, ?_⟩
  rw [hstored, stored_eq hn]

def volts (x : Float) : Quantity Float :=
  ⟨x, .ofSymbol .volt, "V", .whole 0⟩

theorem checkUnits_volts (x : Float) : (volts x).checkUnits "V" = .ok ⟨⟩ := by
  have hunits : (volts 0.0).checkUnits "V" = .ok ⟨⟩ := by decide +kernel
  exact hunits

/-- Outlets with all kinds of bounds, one of them twice. -/
def fourSettings : List (ℕ × Quantity Float) :=
  [(3, volts 0.5), (12, volts (-10.0)), (7, volts 2.5), (3, volts (-0.25))]

theorem permitted_of_mem_fourSettings : ∀ s ∈ fourSettings, s.1 < 16 ∧ Permitted s.1 s.2 := by
  simp only [fourSettings, forall_mem_cons]
  exact ⟨⟨by decide, checkUnits_volts _, rfl, rfl⟩, ⟨by decide, checkUnits_volts _, rfl, rfl⟩,
    ⟨by decide, checkUnits_volts _, rfl, rfl⟩, ⟨by decide, checkUnits_volts _, rfl, rfl⟩, nofun⟩

/-- The second voltage on an outlet counts, and an outlet without any voltage keeps its zero. -/
theorem data_of_fourSettings : (∀ s ∈ fourSettings, s.1 < 16 ∧ Permitted s.1 s.2) ∧
    ∃ d d' : Desk Settings (Simulated (Memory .sixteen)),
      (fourSettings.forM fun s => setVoltage .sixteen s.1 (.quantity s.2)) d = (.ok ⟨⟩, d') ∧
      (∃ r, d'.line.memory.outlets[0]? = some r ∧ r.data = 0) ∧
      ∃ (r : Registers) (code : ℤ), d'.line.memory.outlets[3]? = some r ∧
        (calculate .sixteen 3 (.real (-0.25 * 1.0)) d').1 = .ok code ∧
        r.data = (~~~(BitVec.ofInt 24 code <<< 4)).toNat := by
  refine ⟨permitted_of_mem_fourSettings, ?_⟩
  obtain ⟨-, -, d, d', -, -, -, hrun, hlength, hdata⟩ :=
    data_of_settings [] "source" fourSettings permitted_of_mem_fourSettings
  have houtlet {number : ℕ} (h : number < 16) : ∃ r, d'.line.memory.outlets[number]? = some r :=
    ⟨_, getElem?_eq_getElem (by omega)⟩
  obtain ⟨r, hr⟩ := houtlet (show 0 < 16 by decide)
  obtain ⟨s, hs⟩ := houtlet (show 3 < 16 by decide)
  obtain ⟨x, code, hx, hcode, -, -, hstored⟩ := (hdata 3 s hs).2 (volts (-0.25)) rfl
  cases (permitted_of_mem_fourSettings (3, volts (-0.25)) (by simp [fourSettings])).2.toSetting.symm.trans hx
  exact ⟨d, d', hrun, ⟨r, hr, (hdata 0 r hr).1 rfl⟩, s, code, hs, hcode, hstored⟩

end LabBench.VoltageSource
