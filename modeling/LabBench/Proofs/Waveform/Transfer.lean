import Mathlib
import LabBench.Proofs.Wire.Blocks
import LabBench.Proofs.Wire.Reactions
import LabBench.Instrument.WaveformSource.Basic
import LabBench.Instrument.WaveformSource.Simulation
import LabBench.Proofs.Quantity.Exact
/-!
# Waveforms on their way to a source and back

A waveform travels to a simulated source as a block at the end of a message. Blanks at the end of a message
are lost, and the last byte of a block may happen to be a blank. The source then notices that there is not
enough data. Every other waveform arrives, and what is fetched afterwards lies below it by less than a step of
the codes, whatever the markers are.

## Main results

* `fetch_after_create`
-/

namespace LabBench

open Act Packed Block List Nat
open String hiding length_map map_map trim trimRight

/-! ### Codes of exact points

Over the real numbers the code of a point is the number of whole steps up to it. Markers that are not longer than the
waveform add nothing but bits above those of the code.
-/

namespace WaveformSource

/-! ### Points -/

theorem ofInt_maxCode : (Magnitude.ofInt maxCode : ℝ) = 16383 := by
  change ((maxCode : ℤ) : ℝ) = 16383
  norm_num [maxCode, dataBits]

theorem scaled_real (x : ℝ) : scaled x = 16383 * (x + 1) / 2 := by
  rw [scaled, ofInt_maxCode]
  change 16383 * (x + (1.0 : ℝ)) / (2.0 : ℝ) = _
  norm_num

theorem level_real (n : ℤ) : (level n : ℝ) = 2 * n / 16383 - 1 := by
  rw [level, ofInt_maxCode]
  change (2.0 : ℝ) * (n : ℝ) / 16383 - (1.0 : ℝ) = _
  norm_num

/-- How many whole steps there are up to a point. -/
noncomputable def stepsTo (x : ℝ) : ℤ :=
  ⌊scaled x⌋

variable {x : ℝ} {ns : List Int}

theorem code_real (hx : -1 ≤ x) : code x = .ok (stepsTo x) := by
  have hnn : 0 ≤ scaled x := by
    rw [scaled_real]
    linarith
  have htruncate : Magnitude.truncate? (scaled x) = some (stepsTo x) := congrArg some (if_pos hnn)
  rw [code, htruncate]

theorem stepsTo_nonneg (hx : -1 ≤ x) : 0 ≤ stepsTo x := by
  rw [stepsTo, scaled_real]
  exact Int.floor_nonneg.mpr (by linarith)

theorem stepsTo_lt (hx : x ≤ 1) : stepsTo x < 16384 := by
  rw [stepsTo, scaled_real, Int.floor_lt]
  push_cast
  linarith

/-- The point of a code is the last one that is not above, and it is less than a step away. -/
theorem level_stepsTo (x : ℝ) : level (stepsTo x) ≤ x ∧ x < level (stepsTo x) + 2 / 16383 := by
  have hle : (stepsTo x : ℝ) ≤ scaled x := Int.floor_le _
  have hlt : scaled x < stepsTo x + 1 := Int.lt_floor_add_one _
  rw [scaled_real] at hle hlt
  rw [level_real]
  constructor <;> linarith

theorem mapM_code {xs : List ℝ} (hxs : ∀ x ∈ xs, -1 ≤ x) : xs.mapM code = .ok (xs.map stepsTo) :=
  Outcome.mapM_eq_ok fun x hx => code_real (hxs x hx)

/-! ### Markers -/

def Raised (bit n m : Int) : Prop :=
  m = n ∨ m = n + bit

/-- A code to which the bits of both markers may have been added. -/
def Marked (n m : Int) : Prop :=
  ∃ k, Raised (markerBit 1) n k ∧ Raised (markerBit 2) k m

/-- There are no markers, or they are tables of levels that are not longer than a waveform. -/
def Fits (count : Nat) (markers : Value) : Prop :=
  markers = .none ∨ ∃ entries, markers = .table entries ∧
    ∀ e ∈ entries, ∃ levels, e.2.sequence = .ok levels ∧ levels.length ≤ count

theorem Raised.refl (bit n : Int) : Raised bit n n :=
  Or.inl rfl

theorem forall₂_raised_refl (bit : Int) (ns : List Int) : Forall₂ (Raised bit) ns ns := by
  rw [forall₂_same]
  exact fun n _ => Raised.refl bit n

theorem exists_mark (bit : Int) {levels : List Value} (h : levels.length ≤ ns.length) :
    ∃ ms, mark bit levels ns = .ok ms ∧ Forall₂ (Raised bit) ns ms := by
  induction levels generalizing ns with
  | nil => exact ⟨ns, rfl, forall₂_raised_refl bit ns⟩
  | cons up rest ih =>
    cases ns with
    | nil => cases h
    | cons n ns =>
      obtain ⟨ms, hmark, hms⟩ := ih (Nat.le_of_succ_le_succ h)
      refine ⟨(if up.truth then n + bit else n) :: ms, by rw [mark, hmark]; rfl, .cons ?_ hms⟩
      split
      · exact Or.inr rfl
      · exact Or.inl rfl

theorem exists_markIn {entries : List (Value × Value)}
    (h : ∀ e ∈ entries, ∃ levels, e.2.sequence = .ok levels ∧ levels.length ≤ ns.length) (number : Nat) :
    ∃ ms, markIn (.table entries) ns number = .ok ms ∧ Forall₂ (Raised (markerBit number)) ns ms := by
  have hpart : (Value.table entries).part (.int number) = .error (.plain .missingKey) ∨
      ∃ e ∈ entries, (Value.table entries).part (.int number) = .ok e.2 := by
    simp only [Value.part]
    split
    · rename_i e he
      exact Or.inr ⟨e, mem_of_find?_eq_some he, rfl⟩
    · exact Or.inl rfl
  rcases hpart with hpart | ⟨e, he, hpart⟩
  · exact ⟨ns, by rw [markIn, hpart]; rfl, forall₂_raised_refl _ ns⟩
  · obtain ⟨levels, hlevels, hlen⟩ := h e he
    obtain ⟨ms, hmark, hms⟩ := exists_mark (markerBit number) hlen
    refine ⟨ms, ?_, hms⟩
    rw [markIn, hpart]
    exact Outcome.bind_eq_ok.mpr ⟨levels, hlevels, hmark⟩

theorem forall₂_marked {ks ms : List Int} (hks : Forall₂ (Raised (markerBit 1)) ns ks)
    (hms : Forall₂ (Raised (markerBit 2)) ks ms) : Forall₂ Marked ns ms := by
  induction hks generalizing ms with
  | nil =>
    cases hms
    exact .nil
  | cons hk _ ih =>
    cases hms with
    | cons hm hms => exact .cons ⟨_, hk, hm⟩ (ih hms)

theorem exists_markAll {markers : Value} (h : Fits ns.length markers) :
    ∃ ms, markAll markers ns = .ok ms ∧ Forall₂ Marked ns ms := by
  have hnone : Forall₂ Marked ns ns := forall₂_marked (forall₂_raised_refl _ ns) (forall₂_raised_refl _ ns)
  rcases h with rfl | ⟨entries, rfl, h⟩
  · exact ⟨ns, rfl, hnone⟩
  · rw [markAll]
    split
    · obtain ⟨ks, hfst, hks⟩ := exists_markIn h 1
      obtain ⟨ms, hsnd, hms⟩ := exists_markIn (hks.length_eq ▸ h) 2
      refine ⟨ms, ?_, forall₂_marked hks hms⟩
      rw [foldlM_cons, hfst]
      change ([2].foldlM (markIn (.table entries)) ks : Outcome _) = _
      rw [foldlM_cons, hsnd]
      rfl
    · exact ⟨ns, rfl, hnone⟩

theorem Marked.eq_add {n m : Int} (h : Marked n m) : m = n ∨ m = n + 16384 ∨ m = n + 32768 ∨ m = n + 49152 := by
  have hfst : markerBit 1 = 16384 := rfl
  have hsnd : markerBit 2 = 32768 := rfl
  obtain ⟨k, hk, hm⟩ := h
  rw [Raised, hfst] at hk
  rw [Raised, hsnd] at hm
  omega

theorem Marked.isWord {n m : Int} (h : Marked n m) (hn : 0 ≤ n) (hlt : n < 16384) : 0 ≤ m ∧ m < 65536 := by
  have := h.eq_add
  omega

theorem Marked.mod_eq {n m : Int} (h : Marked n m) (hn : 0 ≤ n) (hlt : n < 16384) : m % 16384 = n := by
  have := h.eq_add
  omega

/-! ### Whole waveforms -/

section Waveform

variable {xs : List ℝ} {data : List Int}

theorem isWord_of_marked (hxs : ∀ x ∈ xs, -1 ≤ x ∧ x ≤ 1)
    (hdata : Forall₂ Marked (xs.map stepsTo) data) : ∀ m ∈ data, 0 ≤ m ∧ m < 65536 := by
  induction xs generalizing data with
  | nil =>
    cases hdata
    exact forall_mem_nil _
  | cons x xs ih =>
    rw [forall_mem_cons] at hxs
    cases hdata with
    | cons hm hms =>
      exact forall_mem_cons.mpr ⟨hm.isWord (stepsTo_nonneg hxs.1.1) (stepsTo_lt hxs.1.2), ih hxs.2 hms⟩

/-- The points of marked codes are less than a step below the points that were coded. -/
theorem forall₂_levels (hxs : ∀ x ∈ xs, -1 ≤ x ∧ x ≤ 1) (hdata : Forall₂ Marked (xs.map stepsTo) data) :
    Forall₂ (fun x y : ℝ => y ≤ x ∧ x < y + 2 / 16383) xs (levels (data.map Int.toNat)) := by
  induction xs generalizing data with
  | nil =>
    cases hdata
    exact .nil
  | cons x xs ih =>
    rw [forall_mem_cons] at hxs
    cases hdata with
    | @cons _ m _ ms hm hms =>
      have hcode : ((m.toNat % Nat.pow 2 dataBits : Nat) : Int) = stepsTo x := by
        have hmod := hm.mod_eq (stepsTo_nonneg hxs.1.1) (stepsTo_lt hxs.1.2)
        have hword := hm.isWord (stepsTo_nonneg hxs.1.1) (stepsTo_lt hxs.1.2)
        have hbits : Nat.pow 2 dataBits = 16384 := rfl
        rw [hbits]
        omega
      refine .cons ?_ (ih hxs.2 hms)
      beta_reduce
      rw [hcode]
      exact level_stepsTo x

end Waveform

open Text LabBench.WaveformSource.Simulation

/-! ### Waveforms in the list -/

namespace Simulation

theorem word_eq {n : Nat} (hn : n < 65536) :
    n % Nat.pow 2 dataBits + (if n.testBit dataBits then 1 else 0) * Nat.pow 2 dataBits +
      (if n.testBit (dataBits + 1) then 1 else 0) * Nat.pow 2 (dataBits + 1) = n := by
  have hlow : Nat.pow 2 dataBits = 16384 := rfl
  have hhigh : Nat.pow 2 (dataBits + 1) = 32768 := rfl
  have hfst : n.testBit dataBits = decide (n / 16384 % 2 = 1) := testBit_eq_decide_div_mod_eq
  have hsnd : n.testBit (dataBits + 1) = decide (n / 32768 % 2 = 1) := testBit_eq_decide_div_mod_eq
  rw [hlow, hhigh, hfst, hsnd]
  simp only [decide_eq_true_eq]
  split <;> split <;> omega

theorem words_filled (name : String) {words : List Nat} (hwords : ∀ n ∈ words, n < 65536) :
    ((Wave.zero name words.length).filled words).words = .ok (words.map fun (n : Nat) => (n : Int)) := by
  have hdata : ((Wave.zero name words.length).filled words).data = words.map (· % Nat.pow 2 dataBits) := by
    simp [Wave.filled, Wave.zero]
  have hzip (f g h : Nat → Nat) : ((words.map f).zip (words.map g)).zip (words.map h) =
      words.map fun n => ((f n, g n), h n) := by
    rw [zip_map', zip_map']
  rw [Wave.words, hdata]
  simp only [Wave.filled]
  rw [hzip, map_map]
  refine congrArg Except.ok (map_congr_left fun n hn => ?_)
  exact congrArg Int.ofNat (word_eq (hwords n hn))

variable {waves : List Wave}

theorem find?_append {name : String} (hnew : ∀ w ∈ waves, w.name ≠ name) {w : Wave}
    (hw : w.name = name) : (waves ++ [w]).find? (·.name == name) = some w := by
  have hnone : waves.find? (·.name == name) = none := find?_eq_none.mpr fun v hv => by simpa using hnew v hv
  rw [List.find?_append, hnone, Option.none_or, List.find?_cons_of_pos (by simpa using hw)]

theorem changeFirst_append {name : String} (hnew : ∀ w ∈ waves, w.name ≠ name) {w : Wave}
    (hw : w.name = name) (f : Wave → Wave) : changeFirst name f (waves ++ [w]) = waves ++ [f w] := by
  induction waves with
  | nil => exact if_pos (by simpa using hw)
  | cons v waves ih =>
    rw [forall_mem_cons] at hnew
    rw [cons_append, changeFirst, if_neg (by simpa using hnew.1), ih hnew.2, cons_append]

end Simulation

/-! ### Messages -/

variable {name : String} {s : Simulated Memory}

def quoted (name : String) : List Char :=
  '"' :: (name.toList ++ ['"'])

theorem getLast?_quoted (name : String) : (quoted name).getLast? = some '"' := by
  rw [quoted, ← cons_append, getLast?_concat]

theorem comma_notMem_quoted (hname : ',' ∉ name.toList) : ',' ∉ quoted name := by
  simpa [quoted] using hname

theorem trimmed_quoted (name : String) : Simulation.trimmed (quoted name) = ofList (quoted name) := by
  have hstart : (quoted name).dropWhile isBlank = quoted name := dropWhile_cons_of_neg (by decide)
  rw [Simulation.trimmed, hstart, trimRight_of_last fun c hc => ?_]
  rw [← Option.some.inj ((getLast?_quoted name).symm.trans hc)]
  rfl

theorem trim_quoted_append (name : String) (rest : List Char) :
    trim isBlank (quoted name ++ rest) = quoted name ++ trimRight isBlank rest := by
  have hhead : ∀ c, (quoted name ++ rest).head? = some c → isBlank c = false := by
    intro c hc
    cases hc
    rfl
  rw [trim, trimLeft_of_head hhead, trimRight_append_of_last (getLast?_quoted name) rfl]

theorem toInt_toDigits (n : Nat) : (Value.text (ofList (toDigits 10 n))).toInt = .ok (n : Int) := by
  simp only [Value.toInt, Number.readInt?_toDigits]

theorem ofText_new (name : String) (n : Nat) :
    Message.ofText s!"wlist:waveform:new \"{name}\", {n}, integer" = .ok ⟨["wlist", "waveform", "new"],
      ofList (quoted name ++ ',' :: ' ' :: (toDigits 10 n ++ ", integer".toList)), false⟩ := by
  have htext : (s!"wlist:waveform:new \"{name}\", {n}, integer").toList = "wlist:waveform:new".toList ++
      ' ' :: (quoted name ++ ',' :: ' ' :: (toDigits 10 n ++ ", integer".toList)) := by
    change ("wlist:waveform:new \"" ++ name ++ "\", " ++ toString n ++ ", integer").toList = _
    simp [quoted]
  have hlast : ∀ c, (',' :: ' ' :: (toDigits 10 n ++ ", integer".toList)).getLast? = some c → isBlank c = false := by
    intro c hc
    rw [← cons_append, ← cons_append, getLast?_append] at hc
    cases hc
    rfl
  rw [Message.ofText_command htext (by decide) (by decide) (by decide), trim_quoted_append, trimRight_of_last hlast]
  rfl

/-- The message with the data of a waveform. Blanks at the end of the data are lost. -/
theorem ofText_data (name : String) (length : Nat) (bytes : List Char) :
    Message.ofText s!"wlist:waveform:data \"{name}\", {String.ofList (Block.header length ++ bytes)}" =
      .ok ⟨["wlist", "waveform", "data"], ofList
        (quoted name ++ ',' :: ' ' :: (header length ++ trimRight isBlank bytes)), false⟩ := by
  have htext : (s!"wlist:waveform:data \"{name}\", {String.ofList (Block.header length ++ bytes)}").toList =
      "wlist:waveform:data".toList ++ ' ' :: (quoted name ++ ',' :: ' ' :: (header length ++ bytes)) := by
    change ("wlist:waveform:data \"" ++ name ++ "\", " ++ ofList (header length ++ bytes)).toList = _
    simp [quoted]
  obtain ⟨c, hlast, hdig⟩ := getLast?_header length
  have hkept : trimRight isBlank (',' :: ' ' :: (header length ++ bytes)) =
      ',' :: ' ' :: (header length ++ trimRight isBlank bytes) := by
    have hheader : (',' :: ' ' :: header length).getLast? = some c := by
      change ([',', ' '] ++ header length).getLast? = some c
      rw [getLast?_append, hlast]
      rfl
    exact trimRight_append_of_last hheader (isBlank_of_isDigit hdig) bytes
  rw [Message.ofText_command htext (by decide) (by decide) (by decide), trim_quoted_append, hkept]
  rfl

theorem ofText_query (name : String) : Message.ofText s!"wlist:waveform:data? \"{name}\"" =
      .ok ⟨["wlist", "waveform", "data"], ofList (quoted name), true⟩ := by
  have htext : (s!"wlist:waveform:data? \"{name}\"").toList =
      "wlist:waveform:data".toList ++ '?' :: ' ' :: (quoted name ++ []) := by
    change ("wlist:waveform:data? \"" ++ name ++ "\"").toList = _
    simp [quoted]
  rw [Message.ofText_query htext (by decide), trim_quoted_append]
  simp [trimRight]
  rfl

/-! ### What the source does -/

theorem commaParts_new (hname : ',' ∉ name.toList) (n : Nat) : commaParts
        (ofList (quoted name ++ ',' :: ' ' :: (toDigits 10 n ++ ", integer".toList))) =
      [ofList (quoted name), ofList (toDigits 10 n), "integer"] := by
  have hdigs : ∀ c ∈ toDigits 10 n, c.isDigit = true := fun c hc =>
    isDigit_of_mem_toDigits (by decide) (by decide) hc
  have hcnt : ',' ∉ ' ' :: toDigits 10 n := by
    rw [mem_cons, not_or]
    exact ⟨by decide, fun h => absurd (hdigs _ h) (by decide)⟩
  have htrimmed : trimmed (' ' :: toDigits 10 n) = ofList (toDigits 10 n) := by
    have hblank : ∀ c ∈ toDigits 10 n, isBlank c = false := fun c hc =>
      isBlank_of_isDigit (hdigs c hc)
    exact congrArg ofList (trim_of_forall hblank)
  have hlast : splitAt ',' " integer".toList = [" integer".toList] := by decide
  have hspl : splitAt ',' (quoted name ++ ',' :: ' ' :: (toDigits 10 n ++ ", integer".toList)) =
      [quoted name, ' ' :: toDigits 10 n, " integer".toList] := by
    rw [splitAt_append (comma_notMem_quoted hname), ← hlast]
    exact congrArg (quoted name :: ·) (splitAt_append hcnt " integer".toList)
  rw [commaParts, toList_ofList, hspl]
  simp only [map_cons, map_nil, trimmed_quoted, htrimmed]
  rfl

/-- Waveforms are added to the list at its end. -/
def appended (w : Wave) (s : Simulated Memory) : Simulated Memory :=
  { s with memory := { s.memory with waves := s.memory.waves ++ [w] } }

theorem respond_of_new {message argument : String}
    (h : Message.ofText message = .ok ⟨["wlist", "waveform", "new"], argument, false⟩) :
    Simulation.respond message s = respondNew argument s := by
  rw [Simulation.respond, h]
  rfl

theorem respond_of_data {message argument : String} {isQuery : Bool}
    (h : Message.ofText message = .ok ⟨["wlist", "waveform", "data"], argument, isQuery⟩) :
    Simulation.respond message s = respondData ⟨["wlist", "waveform", "data"], argument, isQuery⟩ s := by
  rw [Simulation.respond, h]
  rfl

theorem respondNew_eq {argument name length : String} {n : Int}
    (hparts : commaParts argument = [name, length, "integer"]) (hlen : (Value.text length).toInt = .ok n) :
    respondNew argument s = (.ok (some .none), appended (.zero name n) s) := by
  rw [respondNew, hparts]
  simp only [hlen]
  rfl

theorem respond_new (hname : ',' ∉ name.toList) (n : Nat) :
    Simulation.respond s!"wlist:waveform:new \"{name}\", {n}, integer" s =
      (.ok (some .none), appended (.zero (ofList (quoted name)) n) s) := by
  rw [respond_of_new (ofText_new name n), respondNew_eq (commaParts_new hname n) (toInt_toDigits n)]

theorem nameAndBlock_eq (hname : ',' ∉ name.toList) {block : List Char}
    (hblk : ∀ c, block.head? = some c → isBlank c = false) :
    nameAndBlock (ofList (quoted name ++ ',' :: ' ' :: block)) = .ok (ofList (quoted name), block) := by
  have hall : ∀ c ∈ quoted name, (c != ',') = true := by
    intro c hc
    rw [bne_iff_ne]
    rintro rfl
    exact comma_notMem_quoted hname hc
  have hspace : (' ' :: block).dropWhile isBlank = block := by
    rw [dropWhile_cons_of_pos rfl]
    exact trimLeft_of_head hblk
  rw [nameAndBlock, toList_ofList, dropWhile_append_of_pos hall,
    takeWhile_append_of_pos hall, dropWhile_cons_of_neg (by simp),
    takeWhile_cons_of_neg (by simp), append_nil]
  simp only [trimmed_quoted, hspace]

section Data

variable {length : Nat} {bytes : List Char} {w : Wave}

theorem nameAndBlock_data (hname : ',' ∉ name.toList) (length : Nat) (bytes : List Char) : nameAndBlock
        (ofList (quoted name ++ ',' :: ' ' :: (header length ++ bytes))) =
      .ok (ofList (quoted name), header length ++ bytes) := by
  refine nameAndBlock_eq hname fun c hc => ?_
  cases hc
  rfl

theorem find_eq {name : String} (h : s.memory.waves.find? (·.name == name) = some w) : find name s = (.ok w, s) := by
  change (Simulated.consult _ >>= _) s = _
  rw [Simulated.consult_bind, h]
  rfl

theorem respond_data (hname : ',' ∉ name.toList) {kept : List Char} {words : List Nat}
    (hdec : decode (header length ++ trimRight isBlank bytes) = .ok kept) (hwords : readWords kept = .ok words)
    (hfind : s.memory.waves.find? (·.name == ofList (quoted name)) = some w) :
    Simulation.respond s!"wlist:waveform:data \"{name}\", {String.ofList (Block.header length ++ bytes)}" s =
      (.ok (some .none), { s with memory := { s.memory with
        waves := changeFirst (ofList (quoted name)) (·.filled words) s.memory.waves } }) := by
  rw [respond_of_data (ofText_data name length bytes)]
  refine (lift_bind_of_ok (nameAndBlock_data hname _ _) _ s).trans ?_
  refine (lift_bind_of_ok hdec _ s).trans ?_
  refine (lift_bind_of_ok hwords _ s).trans ?_
  exact bind_of_ok (bind_of_ok (find_eq hfind))

theorem respond_data_of_error (hname : ',' ∉ name.toList) {e : Fault}
    (hdec : decode (header length ++ trimRight isBlank bytes) = .error e) :
    Simulation.respond s!"wlist:waveform:data \"{name}\", {String.ofList (Block.header length ++ bytes)}" s =
      (.error e, s) := by
  rw [respond_of_data (ofText_data name length bytes)]
  refine (lift_bind_of_ok (nameAndBlock_data hname _ _) _ s).trans ?_
  exact bind_of_error (congrArg (·, s) hdec)

theorem respond_query {data : List Int} (hfind : s.memory.waves.find? (·.name == ofList (quoted name)) = some w)
    (hwords : w.words = .ok data) (hdata : ∀ n ∈ data, 0 ≤ n ∧ n < 65536) :
    Simulation.respond s!"wlist:waveform:data? \"{name}\"" s =
      (.ok (some (.text (ofList (encode (bytesOf data))))), s) := by
  rw [respond_of_data (ofText_query name)]
  refine (bind_of_ok (find_eq hfind)).trans ?_
  refine (lift_bind_of_ok hwords _ s).trans ?_
  exact lift_bind_of_ok (words_eq_ok hdata) _ s

end Data

/-! ### There and back -/

section Journey

variable {status : List String} {markers : Value} {ns data : List Int}

/-- The source after a new waveform was announced to it. -/
def announced (name : String) (n : Nat) (s : Simulated Memory) : Simulated Memory :=
  { appended (.zero (ofList (quoted name)) n)
      (s.noted s!"wlist:waveform:new \"{name}\", {n}, integer") with output := none }

theorem create_eq (hname : ',' ∉ name.toList) (hmarks : markAll markers ns = .ok data)
    (hdata : ∀ n ∈ data, 0 ≤ n ∧ n < 65536) {x : Outcome PUnit} {s' : Simulated Memory}
    (h : Simulated.receive s!"wlist:waveform:data \"{name}\", {String.ofList
        (Block.header (Packed.bytesOf data).length ++ Packed.bytesOf data)}"
      (announced name ns.length s) = (x, s')) :
    create name (.ok ns) markers ⟨⟨⟩, status, s⟩ = (x, ⟨⟨⟩, status, s'⟩) := by
  have hnew := Simulated.receive_of_none (s := s) (respond_new hname ns.length)
  refine Desk.busy_eq ((lift_bind_of_ok rfl _ _).trans ?_)
  refine (bind_of_ok (Desk.write_eq hnew _ _)).trans ?_
  refine (lift_bind_of_ok hmarks _ _).trans ?_
  refine (lift_bind_of_ok (words_eq_ok hdata) _ _).trans ?_
  exact Desk.write_eq h _ _

theorem exists_fetch {K : Type} [Magnitude K] {w : Wave}
    (hfind : s.memory.waves.find? (·.name == ofList (quoted name)) = some w)
    (hwords : w.words = .ok data) (hdata : ∀ n ∈ data, 0 ≤ n ∧ n < 65536) (hlen : 2 * data.length < 10 ^ 9) :
    ∃ d, fetch name ⟨⟨⟩, status, s⟩ = (.ok (levels (data.map Int.toNat) : List K), d) := by
  have hdec : decode (ofList (encode (bytesOf data)) ++ "\n").toList = .ok (bytesOf data) := by
    rw [toList_append, toList_ofList]
    exact decode_encode_append (by rwa [length_bytesOf]) _
  have hask := Simulated.askRaw_of_text (s := s)
    (respond_query (s := s.noted s!"wlist:waveform:data? \"{name}\"") hfind hwords hdata)
  apply Exists.intro
  apply Desk.busy_eq
  refine (bind_of_ok (Desk.onLine_eq hask _ _)).trans ?_
  refine (lift_bind_of_ok hdec _ _).trans ?_
  exact lift_bind_of_ok (readWords_bytesOf hdata) _ _

/-- The last byte of some data is a blank. -/
def EndsBlank (data : List Int) : Prop :=
  ∃ m, data.getLast? = some m ∧ (m / 256 = 32 ∨ 9 ≤ m / 256 ∧ m / 256 ≤ 13)

theorem isBlank_byte {n : Nat} (hn : n < 256) : isBlank (byte n) = true ↔ n = 32 ∨ 9 ≤ n ∧ n ≤ 13 := by
  revert n
  decide +kernel

theorem endsBlank_iff (hdata : ∀ n ∈ data, 0 ≤ n ∧ n < 65536) :
    EndsBlank data ↔ ∃ c, (bytesOf data).getLast? = some c ∧ isBlank c = true := by
  rw [getLast?_bytesOf]
  cases hlast : data.getLast? with
  | none => simp [EndsBlank, hlast]
  | some m =>
    have hm := hdata m (mem_of_getLast? hlast)
    have hblank := isBlank_byte (n := m.toNat / 256) (by omega)
    simp only [EndsBlank, hlast, Option.map_some, Option.some.injEq, exists_eq_left', hblank]
    omega

/-- Data with a blank at its end does not arrive as a whole, and the source refuses it. -/
theorem exists_create_of_endsBlank (hname : ',' ∉ name.toList) (hmarks : markAll markers ns = .ok data)
    (hdata : ∀ n ∈ data, 0 ≤ n ∧ n < 65536) (hlen : 2 * data.length < 10 ^ 9) (hblank : EndsBlank data) :
    ∃ d, create name (.ok ns) markers ⟨⟨⟩, status, s⟩ = (.error (.because .block "Not enough data."), d) := by
  obtain ⟨c, hlast, hc⟩ := (endsBlank_iff hdata).mp hblank
  have hsize : (bytesOf data).length < 10 ^ 9 := by rwa [length_bytesOf]
  have hdec := decode_header hsize (trimRight isBlank (bytesOf data))
  rw [if_neg (not_le.mpr (length_trimRight_lt hlast hc))] at hdec
  exact ⟨_, create_eq hname hmarks hdata (Simulated.receive_of_error (respond_data_of_error hname hdec))⟩

theorem exists_create (hname : ',' ∉ name.toList) (hnew : ∀ w ∈ s.memory.waves, w.name ≠ ofList (quoted name))
    (hmarks : markAll markers ns = .ok data) (hcnt : data.length = ns.length)
    (hdata : ∀ n ∈ data, 0 ≤ n ∧ n < 65536) (hlen : 2 * data.length < 10 ^ 9) (hblank : ¬EndsBlank data) :
    ∃ s' w, create name (.ok ns) markers ⟨⟨⟩, status, s⟩ = (.ok ⟨⟩, ⟨⟨⟩, status, s'⟩) ∧
      s'.memory.waves.find? (·.name == ofList (quoted name)) = some w ∧ w.words = .ok data := by
  have hwhole : trimRight isBlank (bytesOf data) = bytesOf data := by
    refine trimRight_of_last fun c hlast => ?_
    rw [← Bool.not_eq_true]
    exact fun hc => hblank ((endsBlank_iff hdata).mpr ⟨c, hlast, hc⟩)
  have hsize : (bytesOf data).length < 10 ^ 9 := by rwa [length_bytesOf]
  have hdec : decode (header (bytesOf data).length ++ trimRight isBlank (bytesOf data)) = .ok (bytesOf data) := by
    rw [decode_header hsize, hwhole, if_pos le_rfl, take_length]
  let zero := Wave.zero (ofList (quoted name)) ns.length
  have hzero : zero.name = ofList (quoted name) := rfl
  have hrecv := Simulated.receive_of_none (s := announced name ns.length s) (respond_data hname hdec
    (readWords_bytesOf hdata) (find?_append hnew hzero))
  have hfilled : (zero.filled (data.map Int.toNat)).words = .ok data := by
    have hwords : ∀ n ∈ data.map Int.toNat, n < 65536 := by
      rw [forall_mem_map]
      intro n hn
      have := hdata n hn
      omega
    have hback : (data.map Int.toNat).map (fun (n : Nat) => (n : Int)) = data := by
      rw [map_map]
      exact (map_congr_left fun n hn => Int.toNat_of_nonneg (hdata n hn).1).trans (map_id data)
    have hsame : zero = .zero (ofList (quoted name)) (data.map Int.toNat).length := by
      rw [length_map, hcnt]
    rw [hsame, words_filled _ hwords, hback]
  refine ⟨_, zero.filled (data.map Int.toNat), create_eq hname hmarks hdata hrecv, ?_, hfilled⟩
  have hwaves := changeFirst_append hnew hzero (·.filled (data.map Int.toNat))
  change (changeFirst _ _ (s.memory.waves ++ [zero])).find? _ = _
  rw [hwaves]
  exact find?_append hnew rfl

end Journey

/-- A waveform with points between `-1` and `1` is created under a new name and then fetched. If the last byte of its
data is a blank, the source refuses it. Otherwise there are as many points, and each lies below the original one by
less than a step. -/
theorem fetch_after_create {d : Desk PUnit (Simulated Memory)} {name : String} {xs : List ℝ}
    {markers : Value} (hname : ',' ∉ name.toList)
    (hnew : ∀ w ∈ d.line.memory.waves, w.name ≠ ofList (quoted name))
    (hxs : ∀ x ∈ xs, -1 ≤ x ∧ x ≤ 1) (hmarkers : Fits xs.length markers)
    (hlength : 2 * xs.length < 10 ^ 9) :
    ∃ data, xs.mapM code >>= markAll markers = .ok data ∧ (EndsBlank data → ∃ d', create name (xs.mapM code) markers d =
        (.error (.because .block "Not enough data."), d')) ∧
      (¬EndsBlank data → ∃ d' ys d'', create name (xs.mapM code) markers d = (.ok ⟨⟩, d') ∧
        fetch name d' = (.ok ys, d'') ∧
        Forall₂ (fun x y : ℝ => y ≤ x ∧ x < y + 2 / 16383) xs ys) := by
  obtain ⟨⟨⟩, status, s⟩ := d
  have hcodes : xs.mapM code = .ok (xs.map stepsTo) := mapM_code fun x hx => (hxs x hx).1
  have hfits : Fits (xs.map stepsTo).length markers := by rwa [length_map]
  obtain ⟨data, hmarks, hmarked⟩ := exists_markAll hfits
  have hcount : data.length = (xs.map stepsTo).length := hmarked.length_eq.symm
  have hdata : ∀ n ∈ data, 0 ≤ n ∧ n < 65536 := isWord_of_marked hxs hmarked
  have hsize : 2 * data.length < 10 ^ 9 := by rwa [hcount, length_map]
  rw [hcodes]
  refine ⟨data, hmarks, exists_create_of_endsBlank hname hmarks hdata hsize, fun hblank => ?_⟩
  obtain ⟨s', w, hcreate, hfind, hwords⟩ := exists_create hname hnew hmarks hcount hdata hsize hblank
  obtain ⟨d'', hfetch⟩ : ∃ d'', fetch name ⟨⟨⟩, status, s'⟩ = (.ok (levels (data.map Int.toNat) : List ℝ), d'') :=
    exists_fetch hfind hwords hdata hsize
  exact ⟨_, _, d'', hcreate, hfetch, forall₂_levels hxs hmarked⟩

/-- The desk of a source that has just been set up. -/
def freshDesk : Desk PUnit (Simulated Memory) :=
  ⟨⟨⟩, [], { memory := {} }⟩

/-- The point `0.01` alone has the code `8273`, which is `32` times `256` and something. It arrives only if a
marker is up. -/
theorem fetch_hundredth : (∃ d', create "w" ([(0.01 : ℝ)].mapM code) .none freshDesk =
      (.error (.because .block "Not enough data."), d')) ∧
    ∃ d' ys d'', create "w" ([(0.01 : ℝ)].mapM code) (.table [(.int 1, .list [.int 1])]) freshDesk = (.ok ⟨⟩, d') ∧
      fetch "w" d' = (.ok ys, d'') ∧
      Forall₂ (fun x y : ℝ => y ≤ x ∧ x < y + 2 / 16383) [0.01] ys := by
  have hcode : [(0.01 : ℝ)].mapM code = .ok [8273] := by
    have hsteps : stepsTo 0.01 = 8273 := by
      rw [stepsTo, scaled_real, Int.floor_eq_iff]
      norm_num
    rw [mapM_code (by norm_num), map_singleton, hsteps]
  have hnew : ∀ w ∈ freshDesk.line.memory.waves, w.name ≠ ofList (quoted "w") := by
    decide
  have hxs : ∀ x ∈ [(0.01 : ℝ)], -1 ≤ x ∧ x ≤ 1 := by norm_num
  have hnone : Fits 1 .none := Or.inl rfl
  have hfits : Fits 1 (.table [(.int 1, .list [.int 1])]) := Or.inr ⟨_, rfl, by simp [Value.sequence]⟩
  have hmarked : markAll (.table [(.int 1, .list [.int 1])]) [8273] = .ok [24657] := rfl
  constructor
  · obtain ⟨data, hdata, hcreate, -⟩ :=
      fetch_after_create (by decide) hnew hxs hnone (by norm_num)
    rw [hcode] at hdata
    cases hdata
    exact hcreate ⟨8273, rfl, by norm_num⟩
  · obtain ⟨data, hdata, -, hfetch⟩ := fetch_after_create (by decide) hnew hxs hfits (by norm_num)
    rw [hcode] at hdata
    cases hmarked.symm.trans hdata
    refine hfetch ?_
    rintro ⟨m, hm, hblank⟩
    cases hm
    norm_num at hblank

end WaveformSource

end LabBench
