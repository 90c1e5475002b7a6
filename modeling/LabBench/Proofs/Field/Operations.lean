import LabBench.Proofs.Field.Holding
/-!
# Operations on field supplies

The panel of a field supply has three resources: whether the heater stays on, the rate of change, and the field. They
can be read and written in any order, and an operation that ends in a fault may be followed by others. What holds
between two operations is kept by all of them.

## Main results

* `held_of_operations`, `value_le_of_zeroDivision`
-/

namespace LabBench

open Act List

/-! ### Operations -/

namespace Instrument

/-- Something that is done with a resource of an instrument, which is found by its path. -/
inductive Operation where
  | read (path : List String)
  | write (path : List String) (v : Value)

variable {κ β : Type}

/-- The resource is looked up on the panel, and then read or written. -/
def perform (i : Instrument κ β) : Operation → Act (Desk κ β) PUnit
  | .read path => do
    let r ← (i.panel (← get).settings).findResource path
    discard r.read
  | .write path v => do
    let r ← (i.panel (← get).settings).findResource path
    r.write v

/-- One operation after the other. A fault ends the operation, and the next one follows. -/
def operate (i : Instrument κ β) (operations : List Operation) (d : Desk κ β) : Desk κ β :=
  operations.foldl (fun d o => (i.perform o d).2) d

end Instrument

namespace Resource

variable {σ : Type} {P : σ → Prop} {r : Resource σ}

theorem preserves_read (hwrappers : r.wrappers = []) (h : ∀ get, r.getter = some get → Preserves P get) :
    Preserves P r.read := by
  unfold Resource.read
  split
  · exact .fail _
  · rename_i get hget
    rw [hwrappers]
    exact (h get hget).bind fun v => (Preserves.lift _).bind fun _ => .pure v

theorem ensures_write {put : Value → Act σ PUnit} {v : Value} {s : σ} {Q : PUnit → σ → Prop} (hs : P s)
    (hput : r.setter = some put) (hwrappers : r.wrappers = []) (h : Ensures (put v) s Q fun _ => P) :
    Ensures (r.write v) s Q fun _ => P := by
  unfold Resource.write
  rw [hput, hwrappers]
  exact .lift_bind (fun _ _ => hs) fun _ _ => ensures_bind_of_ok rfl (.lift_bind (fun _ _ => hs) fun _ _ => h)

end Resource

theorem Panel.exists_of_findResource {σ : Type} {p : Panel σ} {path : List String} {r : Resource σ}
    (hparts : p.parts = []) (h : p.findResource path = .ok r) : ∃ name, path = [name] ∧ (name, r) ∈ p.resources := by
  rw [findResource] at h
  match path with
  | [] => cases h
  | [name] =>
    rw [findResourceFrom] at h
    cases hlook : p.resources.lookup name with
    | none =>
      rw [hlook] at h
      cases h
    | some r' =>
      rw [hlook] at h
      cases h
      obtain ⟨l, l', hl, -⟩ := lookup_eq_some_iff.mp hlook
      exact ⟨name, rfl, by rw [hl]; simp⟩
  | name :: name' :: rest =>
    rw [findResourceFrom, hparts] at h
    · cases h
    · nofun

namespace FieldSupply

open Number Simulated Instrument LabBench.FieldSupply.Simulation

variable {start : Simulated Memory} {settings : Settings} {m : Memory} {d : Desk Settings (Simulated Memory)}

abbrev simulated (name : String) : Instrument Settings (Simulated Memory) :=
  quickInstrument name

/-- What holds between two operations, whatever the settings and the memory are. -/
def Safe (start : Simulated Memory) (d : Desk Settings (Simulated Memory)) : Prop :=
  ∃ settings m, Follows start settings m d ∧ Poised m

/-- Whether the heater stays on, as a resource. -/
def staysHotResource : Resource (Desk Settings (Simulated Memory)) where
  getter := some (Desk.consult Settings.staysHot)
  setter := some fun v => Desk.remember fun s => { s with staysHot := v }
  converter := some .flag

def sweepRateResource : Resource (Desk Settings (Simulated Memory)) where
  getter := some do return .quantity (← sweepRate)
  setter := some setSweepRate
  units := some "T.s-1"
  displayUnits := some "T.s-1"

def fieldResource : Resource (Desk Settings (Simulated Memory)) where
  getter := some do return .quantity (← outputField)
  setter := some setField
  units := some "T"
  displayUnits := some "T"

theorem resources_eq (name : String) : (panel name []).resources =
    [("perma_hot", staysHotResource), ("sweep_rate", sweepRateResource), ("field", fieldResource)] :=
  rfl

/-! ### Single operations -/

theorem preserves_setStaysHot (v : Value) : Preserves (Safe start)
    (Desk.remember fun s : Settings => { s with staysHot := v } : Use (Simulated Memory) PUnit) := by
  rintro d ⟨settings, m, h, hm⟩
  exact ⟨_, m, h.copy rfl ⟨rfl, rfl, rfl⟩, hm⟩

theorem preserves_sweepRate : Preserves (Safe start) (sweepRate : Use (Simulated Memory) (Quantity Float)) := by
  rintro d ⟨settings, m, h, hm⟩
  obtain ⟨r, d', hrate, -, h'⟩ := h.sweepRate
  rw [hrate]
  exact ⟨settings, m, h', hm⟩

theorem Poised.withRate (h : Poised m) (rate : Float) : Poised { m with sweepRate := rate } :=
  ⟨h.isNumber, h.stands.imp (fun hstands => ⟨hstands.activity, hstands.mode⟩) fun ⟨hstands, hrest⟩ =>
    ⟨⟨hstands.activity, hstands.mode⟩, hrest⟩⟩

theorem preserves_setSweepRate (v : Value) :
    Preserves (Safe start) (setSweepRate v : Use (Simulated Memory) PUnit) := by
  refine (Preserves.lift _).bind fun x => (Preserves.lift _).bind fun y => ?_
  have hwrite : Preserves (Safe start) (Desk.write ("$T" ++ fixed 6 y) : Use (Simulated Memory) PUnit) := by
    rintro d ⟨settings, m, h, hm⟩
    obtain ⟨x, d', rate, hwrite, h', -⟩ := h.tellRate (fixed 6 y)
    rw [hwrite]
    exact ⟨settings, _, h', hm.withRate rate⟩
  dsimp only
  split
  · exact (Preserves.fail _).bind fun _ => hwrite
  · exact hwrite

theorem preserves_outputField : Preserves (Safe start) (outputField : Use (Simulated Memory) (Quantity Float)) := by
  rintro d ⟨settings, m, h, hm⟩
  obtain ⟨scale, d', hout, h'⟩ := h.outputField
  rw [hout]
  exact ⟨settings, m, h', hm⟩

theorem ensures_write_field (v : Value) (h : Safe start d) :
    Ensures (fieldResource.write v) d (fun _ d' => ∃ settings, Assigned start settings v d') fun _ => Safe start := by
  refine Resource.ensures_write h rfl rfl ?_
  obtain ⟨settings, m, h, hm⟩ := h
  exact (h.setField hm v).mono (fun _ _ h => ⟨settings, h⟩) fun _ _ ⟨_, m', h', hm'⟩ => ⟨settings, m', h', hm'⟩

theorem Assigned.safe {v : Value} (h : Assigned start settings v d) : Safe start d := by
  obtain ⟨q, rfl, m, h, hheld⟩ := h
  exact ⟨settings, m, h, hheld.isNumber, .inr ⟨hheld.stands, hheld.meets.isNumber, hheld.balanced⟩⟩

theorem preserves_perform (name : String) (o : Operation) : Preserves (Safe start) ((simulated name).perform o) := by
  have hrscs {path : List String} {r : Resource (Desk Settings (Simulated Memory))}
      (hr : (panel name []).findResource path = .ok r) : ∃ resource, (resource, r) ∈
        (panel name [] : Panel (Desk Settings (Simulated Memory))).resources := by
    obtain ⟨resource, -, hmem⟩ := Panel.exists_of_findResource rfl hr
    exact ⟨resource, hmem⟩
  simp only [resources_eq, mem_cons, Prod.mk.injEq, not_mem_nil, or_false] at hrscs
  intro d h
  cases o with
  | read path =>
    rw [perform, get_bind]
    refine of_lift_bind h fun r hr => ?_
    refine (Preserves.bind (Resource.preserves_read ?_ ?_) fun _ => .pure _) d h
    · obtain ⟨_, ⟨-, rfl⟩ | ⟨-, rfl⟩ | ⟨-, rfl⟩⟩ := hrscs hr <;> rfl
    · obtain ⟨_, ⟨-, rfl⟩ | ⟨-, rfl⟩ | ⟨-, rfl⟩⟩ := hrscs hr
      · rintro _ ⟨⟩
        exact Preserves.get.bind fun _ => .pure _
      · rintro _ ⟨⟩
        exact preserves_sweepRate.bind fun _ => .pure _
      · rintro _ ⟨⟩
        exact preserves_outputField.bind fun _ => .pure _
  | write path v =>
    rw [perform, get_bind]
    refine of_lift_bind h fun r hr => ?_
    refine preserves_of_ensures (fun d h => ?_) d h
    obtain ⟨_, ⟨-, rfl⟩ | ⟨-, rfl⟩ | ⟨-, rfl⟩⟩ := hrscs hr
    · exact Resource.ensures_write h rfl rfl ((preserves_setStaysHot v).ensures h)
    · exact Resource.ensures_write h rfl rfl ((preserves_setSweepRate v).ensures h)
    · exact (ensures_write_field v h).mono (fun _ _ ⟨_, h⟩ => h.safe) fun _ _ h => h

theorem safe_operate (name : String) (operations : List Operation) (h : Safe start d) :
    Safe start ((simulated name).operate operations d) := by
  induction operations generalizing d with
  | nil => exact h
  | cons o operations ih => exact ih (preserves_perform name o d h)

/-! ### From the start -/

/-- The connection is made to a supply that is clamped, and afterwards it is on hold. -/
theorem Follows.exists_connected (h : Follows start settings m d) (hactv : m.activity = .int 4)
    (hmode : m.mode = .int 0) :
    ∃ d', connected d = (.ok ⟨⟩, d') ∧ Follows start settings { m with activity := .int 0 } d' := by
  obtain ⟨d₁, hresol, h₁⟩ := h.tell "$Q4" (fun htext => absurd htext (by decide)) fun s _ => ⟨s, rfl⟩
  obtain ⟨d₂, hcontrol, h₂⟩ := h₁.tell "$C3" (fun htext => absurd htext (by decide)) fun s _ => ⟨s, rfl⟩
  obtain ⟨d₃, hunit, h₃⟩ := h₂.tell "$M9" (fun htext => absurd htext (by decide)) fun s _ => ⟨s, rfl⟩
  have hnothing : reaction "$M9" (reaction "$C3" (reaction "$Q4" m)) = m := rfl
  rw [hnothing] at h₃
  obtain ⟨d₄, hask, h₄⟩ := h₃.ask "X" (w := statusText m) (by decide) (by rintro s rfl; rfl)
  have hstat : FieldSupply.status d₃ = (.ok ⟨0, 0, 4, 9, if m.isHeated then 1 else 0, 9, 0⟩, d₄) := by
    have hans : Status.ofAnswer (.text (heard Memory (statusText m))) =
        .ok ⟨0, 0, 4, 9, if m.isHeated then 1 else 0, 9, 0⟩ := by
      rw [statusText, hactv, hmode]
      cases m.isHeated <;> decide +kernel
    rw [FieldSupply.status, bind_of_ok hask]
    exact congrArg (·, d₄) hans
  obtain ⟨d₅, hhold, h₅⟩ := h₄.tell "$A0" (fun htext => absurd htext (by decide)) fun s _ => ⟨_, rfl⟩
  rw [reaction_hold] at h₅
  have hstands : Stands false { m with activity := .int 0 } := ⟨rfl, hmode⟩
  obtain ⟨d₆, hstat', h₆⟩ := h₅.status hstands
  refine ⟨d₆, ?_, h₆⟩
  rw [connected, bind_of_ok hresol, bind_of_ok hcontrol, bind_of_ok hunit, bind_of_ok hstat]
  exact (bind_of_ok hhold).trans (bind_of_ok hstat')

/-- What the desk says when it is asked: the output field is the field of the magnet. -/
def Agrees (d : Desk Settings (Simulated Memory)) : Prop :=
  ∃ p r, (outputField d).1 = .ok p ∧ (persistentField d).1 = .ok r ∧ p.equal r = .ok true

theorem Follows.agrees (h : Follows start settings m d) (hbal : Balanced m) : Agrees d := by
  obtain ⟨scale, d₁, hout, -⟩ := h.outputField
  obtain ⟨scale', d₂, hpers, -⟩ := h.persistentField
  exact ⟨_, _, congrArg Prod.fst hout, congrArg Prod.fst hpers, hbal.equal scale scale'⟩

/-- What the desk says after an assignment. -/
structure Shows (q : Quantity Float) (d : Desk Settings (Simulated Memory)) : Prop where
  activity : (activity d).1 = .ok "hold"
  output : ∃ p, (outputField d).1 = .ok p ∧ p.equal q = .ok true
  heater : (isHeaterOn d).1 = .ok d.settings.staysHot.truth
  agrees : d.settings.staysHot.truth = false → Agrees d

theorem Assigned.shows {v : Value} (h : Assigned start settings v d) : ∃ q, v = .quantity q ∧ Shows q d := by
  obtain ⟨q, rfl, m, h, hheld⟩ := h
  obtain ⟨d₁, hactv, -⟩ := h.activity hheld.stands
  obtain ⟨scale, d₂, hout, -⟩ := h.outputField
  obtain ⟨d₃, hheater, -⟩ := h.isHeaterOn hheld.stands
  refine ⟨q, rfl, congrArg Prod.fst hactv, ⟨_, congrArg Prod.fst hout, hheld.meets.equal _ rfl rfl⟩,
    ?_, fun hcold => ?_⟩
  · rw [hheater, h.settings_eq, hheld.isHeated]
  · rw [h.settings_eq, ← hheld.isHeated] at hcold
    exact h.agrees ⟨hheld.balanced hcold, hheld.isNumber⟩

/-- A supply notes the messages that it receives, and nothing that it says is put aside. -/
theorem log_replay (start : Simulated Memory) (log : List String) :
    (replay start log).log = start.log ++ log ∧ (replay start log).answers = start.answers := by
  induction log using reverseRecOn with
  | nil => exact ⟨(append_nil _).symm, rfl⟩
  | append_singleton log text ih =>
    obtain ⟨x, output, hrecv⟩ := receive_eq text (replay start log)
    rw [replay_concat, hrecv, ← append_assoc, ← ih.1]
    exact ⟨rfl, ih.2⟩

theorem Follows.agrees_before (h : Follows start settings m d) (hlog : start.log = []) (hans : start.answers = none)
    {before after : List String} (hspl : d.line.log = before ++ "$H1" :: after) :
    Agrees { settings, line := replay start before } := by
  obtain ⟨hpre, hans'⟩ := log_replay start before
  rw [hlog, nil_append] at hpre
  have hthen : Follows start settings (replay start before).memory { settings, line := replay start before } :=
    { settings_eq := rfl
      memory_eq := rfl
      answers_eq := hans'.trans hans
      replay_eq := congrArg (fun log => (replay start log).memory) hpre
      balanced := fun first rest hfst => h.balanced first (rest ++ "$H1" :: after) (by
        rw [hspl, ← hpre, hfst, append_assoc, cons_append]) }
  exact hthen.agrees (h.balanced before after hspl)

/-- After the connection to a fresh supply, every operation leaves it safe. -/
theorem exists_safe (dice : List Float) (name : String) : ∃ d₀ : Desk Settings (Simulated Memory),
      (simulated name).connected { settings := (simulated name).settings, line := { memory := {}, dice } } =
        (.ok ⟨⟩, d₀) ∧
      ∀ operations, Safe { memory := {}, dice } ((simulated name).operate operations d₀) := by
  have hfirst : Follows { memory := {}, dice } (simulated name).settings {}
      { settings := (simulated name).settings, line := { memory := {}, dice } } :=
    ⟨rfl, rfl, rfl, rfl, fun before after hlog => by simp at hlog⟩
  obtain ⟨d₀, hconnected, h₀⟩ := hfirst.exists_connected rfl rfl
  exact ⟨d₀, hconnected, fun operations =>
    safe_operate name operations ⟨_, _, h₀, by decide +kernel, .inr ⟨⟨rfl, rfl⟩, by decide +kernel, fun _ => rfl⟩⟩⟩

/-- Whatever is read and written after the connection: whenever a field has been assigned, the supply is on hold, its
output field is the assigned one, the heater is on if it stays on, and otherwise the magnet has kept the output field.
Whenever the heater was turned on, the output field was that of the magnet. -/
theorem held_of_operations (dice : List Float) (name : String) :
    ∃ (line : Simulated Memory) (d₀ : Desk Settings (Simulated Memory)), Simulated.start dice = .ok line ∧
      (simulated name).connected { settings := (simulated name).settings, line } = (.ok ⟨⟩, d₀) ∧
      ∀ (operations : List Operation) (d : Desk Settings (Simulated Memory)),
        (simulated name).operate operations d₀ = d →
        (∀ v d', (simulated name).perform (.write ["field"] v) d = (.ok ⟨⟩, d') → ∃ q, v = .quantity q ∧ Shows q d') ∧
        (replay line d.line.log).memory = d.line.memory ∧
        ∀ before after, d.line.log = before ++ "$H1" :: after →
          Agrees { settings := d.settings, line := replay line before } := by
  obtain ⟨d₀, hconnected, hsafe⟩ := exists_safe dice name
  refine ⟨_, d₀, rfl, hconnected, ?_⟩
  rintro operations d rfl
  obtain ⟨settings, m, h, hm⟩ := hsafe operations
  refine ⟨fun v d' hwrite => ?_, h.replay_eq.trans h.memory_eq.symm, fun before after hlog => ?_⟩
  · have hfield : (simulated name).perform (.write ["field"] v) ((simulated name).operate operations d₀) =
        fieldResource.write v ((simulated name).operate operations d₀) := rfl
    rw [hfield] at hwrite
    obtain ⟨_, hassigned⟩ := (ensures_write_field v ⟨settings, m, h, hm⟩).1 _ _ hwrite
    exact hassigned.shows
  · rw [h.settings_eq]
    exact h.agrees_before rfl rfl hlog

def tesla (x : Float) : Quantity Float :=
  ⟨x, .ofSymbol .tesla, "T", .whole 0⟩

/-- A simulated supply that has just been connected. -/
def freshDesk : Desk Settings (Simulated Memory) :=
  ((simulated "supply").connected { settings := (simulated "supply").settings, line := { memory := {} } }).2

/-- The heater is not to stay on, a field is assigned and read, and a rate is refused. -/
def someOperations : List Operation :=
  [.write ["perma_hot"] (.flag false), .write ["field"] (.quantity (tesla 0.0)), .read ["field"],
    .write ["sweep_rate"] (.int 1)]

/-- The heater was turned on for the first field, and a field within the tolerance can be assigned then. -/
theorem held_someOperations : ∃ d d' : Desk Settings (Simulated Memory),
    (simulated "supply").operate someOperations freshDesk = d ∧
    (∃ before after, d.line.log = before ++ "$H1" :: after ∧
      Agrees { settings := d.settings, line := replay { memory := {} } before }) ∧
    (simulated "supply").perform (.write ["field"] (.quantity (tesla 1e-9))) d = (.ok ⟨⟩, d') ∧
    Shows (tesla 1e-9) d' := by
  obtain ⟨line, d₀, hline, hconnected, h⟩ := held_of_operations [] "supply"
  have hstart : Simulated.start [] = .ok ({ memory := {} } : Simulated Memory) := rfl
  cases hstart.symm.trans hline
  have hfresh : freshDesk = d₀ := congrArg Prod.snd hconnected
  subst hfresh
  obtain ⟨hassigned, -, hheated⟩ := h someOperations _ rfl
  have hmem : "$H1" ∈ ((simulated "supply").operate someOperations freshDesk).line.log := by decide +kernel
  have hok : ((simulated "supply").perform (.write ["field"] (.quantity (tesla 1e-9)))
      ((simulated "supply").operate someOperations freshDesk)).1.isOk = true := by decide +kernel
  obtain ⟨before, after, hlog⟩ := append_of_mem hmem
  obtain ⟨⟨⟩, hresult⟩ := Outcome.exists_of_isOk hok
  have hwrite : (simulated "supply").perform (.write ["field"] (.quantity (tesla 1e-9)))
      ((simulated "supply").operate someOperations freshDesk) = (.ok ⟨⟩, _) := Prod.ext hresult rfl
  obtain ⟨q, hq, hshows⟩ := hassigned _ _ hwrite
  cases hq
  exact ⟨_, _, rfl, ⟨before, after, hlog, hheated before after hlog⟩, hwrite, hshows⟩

end FieldSupply

/-! ### Sweep rates

A sweep rate is sent for a minute, with six places, and read back for a second. One that is not sent as zero is still
far from zero when it is read back.
-/

namespace Number

open Float.Model Float.Model.UnpackedFloat Format

/-! ### Six places -/

variable {x : Float} {m d : ℕ} {e : ℤ}

theorem readFloat?_fixed (h : Exact.ofFloat x = .finite false m e) (hpos : 0 < ((Ratio.ofBinary m e).shift 6).round) :
    readFloat? (fixed 6 x) = some (Numeral.decimal false ((Ratio.ofBinary m e).shift 6).round (-6)).toFloat := by
  have hsign : sign x = "" := by
    rw [sign, isNegative_of_ofFloat h]
    rfl
  unfold fixed
  rw [special, size, h, Option.getD_none, hsign]
  dsimp only
  generalize ((Ratio.ofBinary m e).shift 6).round = k at hpos ⊢
  generalize hds : replicate (6 + 1 - (Nat.toDigits 10 k).length) '0' ++ Nat.toDigits 10 k = ds
  have hdigs : ∀ c ∈ ds, c.isDigit = true := hds ▸ isDigit_padded _ k
  have hval : digitsValue ds = k := hds ▸ digitsValue_padded _ k
  have hlen : 6 < ds.length := by
    rw [← hds, length_append, length_replicate]
    omega
  obtain ⟨whole, places, rfl, hplaces⟩ : ∃ whole places, ds = whole ++ places ∧ places.length = 6 :=
    ⟨_, _, (take_append_drop (ds.length - 6) ds).symm, by rw [length_drop]; omega⟩
  have hcut : (whole ++ places).length - 6 = whole.length := by rw [length_append, hplaces, Nat.add_sub_cancel]
  obtain ⟨hwhole, hrest⟩ := forall_mem_append.mp hdigs
  have hne : whole ≠ [] := by
    rintro rfl
    rw [nil_append, hplaces] at hlen
    omega
  obtain ⟨c, rest, rfl⟩ := exists_cons_of_length_pos (show 0 < places.length by omega)
  have hdec := IsExponent.nil.isDecimal_point hwhole hne hrest (hval ▸ hpos)
  have hscan := IsExponent.nil.scanDecimal?_point hwhole hne hrest false
  rw [hplaces] at hscan
  rw [hcut, take_left, drop_left, readFloat?, String.empty_append, String.toList_append, String.toList_ofList,
    toList_fraction_cons]
  rw [append_nil] at hdec hscan
  obtain ⟨a, rest', hcs, ha⟩ := hdec.head
  have hparse := parse?_of_isDigit ha (fun b hb => hdec.isSpace b (hcs ▸ mem_cons_of_mem _ hb)) false
  rw [← hcs, hscan] at hparse
  rw [digitsValue_append, hplaces] at hval
  rw [← hval]
  exact congrArg (Option.map Numeral.toFloat) hparse

theorem unpack_pack_cases {u : UnpackedFloat} (h : Canonical u) :
    (Float.Model.pack u).unpack = u ∨ ∃ s, (Float.Model.pack u).unpack = .infinity s := by
  cases u with
  | infinity | notANumber => exact h.elim
  | zero s => exact .inl (unpack_pack_zero s)
  | finite s m e hm =>
    by_cases he : e ≤ 971
    · have hfin : composed s m e = .finite s m e hm := dif_neg hm.ne'
      exact .inl (hfin ▸ unpack_pack_composed h he s)
    · refine .inr ⟨s, (congrArg Float.Model.unpack ?_).trans (unpack_pack_infinity s)⟩
      have hlarge : 2 ^ 11 ≤ (e + 1023 + 52).toNat + 1 := by omega
      have hpack : UnpackedFloat.pack binary64 (.finite s m e hm) = UnpackedFloat.pack binary64 (.infinity s) :=
        if_pos hlarge
      simp only [Float.Model.pack, hpack]

theorem Faithful.le_value {t : ℚ} {u : UnpackedFloat} {z : Float} {k : ℤ} (h : Faithful t u)
    (hz : parts z = (Float.Model.pack u).unpack) (hfin : z.isFinite) (hk : -1022 ≤ k) (hle : 2 ^ k ≤ t) :
    2 ^ k ≤ value z := by
  have hfits : Fits (2 ^ 52) (k - 52) := ⟨by norm_num, by omega, .inl le_rfl⟩
  have hworth : worth (composed .positive (2 ^ 52) (k - 52)) = 2 ^ k := by
    rw [worth_composed, signed, zpow_sub₀ two_ne_zero]
    push_cast
    field_simp
  rcases unpack_pack_cases h.canonical with hself | ⟨s, hinf⟩
  · rw [value, hz, hself, ← hworth]
    exact h.le_worth _ (hfits.canonical_composed _) (hworth.le.trans hle)
  · exact absurd (hz.trans hinf) (parts_ne_infinity hfin s)

/-- Digits with six places are not read as zero, unless all of them are zeros. -/
theorem le_value_toFloat (hd : 0 < d) (hfin : (Numeral.decimal false d (-6)).toFloat.isFinite) :
    (2 : ℚ) ^ (-20 : ℤ) ≤ value (Numeral.decimal false d (-6)).toFloat := by
  have hone : (1 : ℚ) ≤ d := mod_cast hd
  have hlen := Nat.length_toDigits_pos (b := 10) (n := d)
  have hzero : ¬((d == 0 || decide (((Nat.toDigits 10 d).length : ℤ) + -6 < -330)) = true) := by
    simp only [Bool.or_eq_true, beq_iff_eq, decide_eq_true_eq]
    omega
  simp only [Numeral.toFloat, if_neg hzero, Bool.false_eq_true, if_false] at hfin ⊢
  split at hfin
  · exact absurd hfin (by decide +kernel)
  · rename_i hsmall
    rw [if_neg hsmall]
    obtain ⟨u, hu, hparts⟩ := exists_nearest_ofScientific (q := -6) hd (by norm_num) (by omega)
    refine hu.le_value hparts hfin (by norm_num) ?_
    norm_num
    linarith

theorem mul_sixtieth_ne_zero {y : Float} (hy : y.isFinite → (2 : ℚ) ^ (-20 : ℤ) ≤ value y) :
    (y * (1.0 / 60.0) == 0.0) = false := by
  rw [← Bool.not_eq_true]
  intro hbeq
  have hmul : (y * (1.0 / 60.0)).isFinite := isFinite_of_beq hbeq ▸ rfl
  have hfin : y.isFinite := (isFinite_of_isFinite_mul hmul).1
  have hval : value (1.0 / 60.0) = 4803839602528529 * 2 ^ (-58 : ℤ) := by
    have hparts : parts (1.0 / 60.0) = composed .positive 4803839602528529 (-58) := rfl
    rw [value, hparts, worth_composed, signed]
    norm_num
  have hnearest := nearest_mul (canonical_parts hfin) (canonical_parts (isFinite_of_isFinite_mul hmul).2)
  have hle : (2 : ℚ) ^ (-26 : ℤ) ≤ value y * value (1.0 / 60.0) := by
    rw [hval]
    have hle := hy hfin
    norm_num at hle ⊢
    linarith
  have hpos := hnearest.le_value (parts_mul y _) hmul (by norm_num) hle
  rw [value_eq_of_beq hbeq] at hpos
  exact absurd hpos (by norm_num [value, show parts 0.0 = .zero .positive from rfl, worth])

theorem Ratio.worth_le_half {r : Ratio} (hden : 0 < r.den) (hround : r.round = 0) : r.worth ≤ 1 / 2 := by
  have hnear := (roundDiv_near r.num r.den hden).2
  rw [show roundDiv r.num r.den = 0 from hround, Nat.zero_mul, Nat.mul_zero, Nat.zero_add] at hnear
  have hnum : (2 : ℚ) * r.num ≤ r.den := mod_cast hnear
  rw [worth, div_le_div_iff₀ (mod_cast hden) two_pos]
  linarith

/-- A number is only read back as zero if it is not larger than half of the last place. -/
theorem value_le_of_fixed {y : Float} (hread : readFloat? (fixed 6 x) = some y)
    (hzero : (y * (1.0 / 60.0) == 0.0) = true) : x.isFinite ∧ value x ≤ 1 / 2000000 := by
  by_cases hx : x.isFinite
  · refine ⟨hx, ?_⟩
    obtain ⟨negative, m, e, hparts, hexact, -, -⟩ := exists_parts hx
    have hnn : (0 : ℚ) ≤ m * 2 ^ e := mul_nonneg (Nat.cast_nonneg m) (two_zpow_pos e).le
    rw [value, hparts, worth_composed, signed_signOf]
    cases negative with
    | true =>
      rw [if_pos rfl]
      linarith
    | false =>
      rw [if_neg Bool.false_ne_true]
      rcases Nat.eq_zero_or_pos ((Ratio.ofBinary m e).shift 6).round with hround | hround
      · have hhalf := Ratio.worth_le_half (Ratio.den_shift_pos (Ratio.den_pos m e) 6) hround
        rw [Ratio.worth_shift, Ratio.worth_ofBinary] at hhalf
        norm_num at hhalf ⊢
        linarith
      · rw [readFloat?_fixed hexact hround] at hread
        cases hread
        exact absurd hzero (by rw [mul_sixtieth_ne_zero (le_value_toFloat hround)]; simp)
  · have hplain : fixed 6 x = plain x := by
      rcases ofFloat_of_not_isFinite hx with ⟨-, hexact⟩ | ⟨negative, -, hexact⟩ <;>
        rw [fixed, plain, special, hexact] <;>
        rfl
    rw [hplain, (tells_plain x).read] at hread
    cases hread
    have hmul : (x * (1.0 / 60.0)).isFinite := isFinite_of_beq hzero ▸ rfl
    exact absurd (isFinite_of_isFinite_mul hmul).1 hx

end Number

namespace FieldSupply

open Number Simulated Instrument LabBench.FieldSupply.Simulation

/-! ### Rates for a minute -/

theorem exists_of_setSweepRate {v : Value} {d d' : Desk Settings (Simulated Memory)}
    (h : setSweepRate v d = (.ok ⟨⟩, d')) : ∃ q : Quantity Float, v = .quantity q ∧
      Desk.write ("$T" ++ fixed 6 (q.magnitude * 60.0)) d = (.ok ⟨⟩, d') := by
  have hscaled (x : Float) : (Value.real x).scaled (.int 60) = .ok (.real (x * 60.0)) := by with_unfolding_all rfl
  obtain ⟨w, hset, h⟩ := lift_bind_eq_ok.mp h
  obtain ⟨x, hfloat, h⟩ := lift_bind_eq_ok.mp h
  obtain ⟨q, hq, hfactor⟩ := Outcome.bind_eq_ok.mp hset
  cases v with
  | quantity p =>
    refine ⟨p, rfl, ?_⟩
    obtain ⟨_, -, hq⟩ := Outcome.bind_eq_ok.mp (show (p.checkUnits _ >>= _) = _ from hq)
    cases hq
    cases (hscaled _).symm.trans hfactor
    cases hfloat
    dsimp only at h
    split at h
    · cases h
    · exact h
  | _ => cases hq

/-- Whatever was done before: an assignment of a field after an assignment of a rate does not divide by zero, unless the
rate is a number that is not larger than half of the last place, for a minute. -/
theorem value_le_of_zeroDivision (dice : List Float) (name : String) :
    ∃ (line : Simulated Memory) (d₀ : Desk Settings (Simulated Memory)), Simulated.start dice = .ok line ∧
      (simulated name).connected { settings := (simulated name).settings, line } = (.ok ⟨⟩, d₀) ∧
      ∀ (operations : List Operation) (v target : Value) (d₁ d₂ : Desk Settings (Simulated Memory)) (f : Fault),
        setSweepRate v ((simulated name).operate operations d₀) = (.ok ⟨⟩, d₁) →
        setField target d₁ = (.error f, d₂) → f.kind = .zeroDivision →
        ∃ q : Quantity Float, v = .quantity q ∧ (q.magnitude * 60.0).isFinite ∧
          value (q.magnitude * 60.0) ≤ 1 / 2000000 := by
  obtain ⟨d₀, hconnected, hsafe⟩ := exists_safe dice name
  refine ⟨_, d₀, rfl, hconnected, fun operations v target d₁ d₂ f hrate hfield hzero => ?_⟩
  obtain ⟨settings, m, h, hm⟩ := hsafe operations
  obtain ⟨q, rfl, hwrite⟩ := exists_of_setSweepRate hrate
  obtain ⟨x, d', rate, hwrite', h', hread⟩ := h.tellRate (fixed 6 (q.magnitude * 60.0))
  cases hwrite.symm.trans hwrite'
  obtain ⟨hdivided, -⟩ := (h'.setField (hm.withRate rate) target).2 f d₂ hfield
  have hnum := hread rfl
  refine ⟨q, rfl, value_le_of_fixed (y := rate) ?_ (hdivided hzero)⟩
  rw [number, Value.toFloat] at hnum
  split at hnum
  · cases hnum
    assumption
  · cases hnum

/-- One nanotesla for a second is sent as nothing for a minute. -/
def slowRate : Quantity Float :=
  ⟨1e-9, Dimension.ofTerms [⟨0, .tesla, none⟩, ⟨0, .second, some (-1.0)⟩], "T.s-1", .whole 0⟩

theorem zeroDivision_after_slowRate : ∃ (d₁ d₂ : Desk Settings (Simulated Memory)) (f : Fault),
    setSweepRate (.quantity slowRate) freshDesk = (.ok ⟨⟩, d₁) ∧
      setField (.quantity (tesla 1.0)) d₁ = (.error f, d₂) ∧ f.kind = .zeroDivision ∧
      value (slowRate.magnitude * 60.0) ≤ 1 / 2000000 := by
  obtain ⟨line, d₀, hline, hconnected, h⟩ := value_le_of_zeroDivision [] "supply"
  have hstart : Simulated.start [] = .ok ({ memory := {} } : Simulated Memory) := rfl
  cases hstart.symm.trans hline
  have hfresh : freshDesk = d₀ := congrArg Prod.snd hconnected
  subst hfresh
  have hrate : (setSweepRate (.quantity slowRate) freshDesk).1 = .ok ⟨⟩ := by decide +kernel
  have hfield : (setField (.quantity (tesla 1.0)) (setSweepRate (.quantity slowRate) freshDesk).2).1 =
      .error (.plain .zeroDivision) := by decide +kernel
  obtain ⟨q, hq, -, hle⟩ := h [] _ _ _ _ _ (Prod.ext hrate rfl) (Prod.ext hfield rfl) rfl
  cases hq
  exact ⟨_, _, _, Prod.ext hrate rfl, Prod.ext hfield rfl, rfl, hle⟩

end FieldSupply

end LabBench
