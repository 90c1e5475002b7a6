import Mathlib
import LabBench.Proofs.Waveform.Transfer
/-!
# Replaced waveforms

A waveform that is put on a channel takes the place of the waveform with its name. The old one is deleted first, and
only then the points of the new one are looked at. So a waveform that is refused because of its points has already cost
the one with its name. Everything else is as before.

## Main results

* `setWaveform_of_unfit`
-/

namespace LabBench

open Simulated List

namespace WaveformSource

open Text Act LabBench.WaveformSource.Simulation

/-! ### The names of waveforms -/

/-- The memory of a source, and the answers within a section. -/
def session (d : Desk PUnit (Simulated Memory)) : Memory × Option (List String) :=
  (d.line.memory, d.line.answers)

variable {memory : Memory} {answers : List String} {n : String} {s : Simulated Memory}

/-- How the name of a waveform is listed. -/
def listed (w : Wave) : String :=
  "\"" ++ unquoted w.name ++ "\""

theorem toList_listed (w : Wave) : (listed w).toList = quoted (unquoted w.name) := by
  simp [listed, quoted]

theorem respond_of_list {text : String} {words : List String} {argument : String} {isQuery : Bool}
    (h : Message.ofText text = .ok ⟨"wlist" :: words, argument, isQuery⟩) :
    Simulation.respond text s = respondList ⟨"wlist" :: words, argument, isQuery⟩ s := by
  rw [Simulation.respond, h]
  rfl

theorem yields_size : Yields session (Desk.askInt "wlist:size?") (memory, none) memory.waves.length (memory, none) := by
  rintro ⟨⟨⟩, status, s⟩ hd
  obtain ⟨rfl, hans : s.answers = none⟩ := Prod.mk.inj hd
  have hresp : LabBench.Simulation.respond "wlist:size?" (s.noted "wlist:size?") =
      (.ok (some (.int s.memory.waves.length)), s.noted "wlist:size?") := by
    have htext : Message.ofText "wlist:size?" = .ok ⟨["wlist", "size"], "", true⟩ := by decide
    exact (respond_of_list htext).trans rfl
  have hqry := query_of_some hresp nofun hans
  have hdisplay : (Value.int s.memory.waves.length).display =
      String.ofList (Nat.toDigits 10 s.memory.waves.length) := rfl
  have hne : Nat.toDigits 10 s.memory.waves.length ≠ [] := ne_nil_of_length_pos Nat.length_toDigits_pos
  have hlast : (String.ofList (Nat.toDigits 10 s.memory.waves.length)).toList.getLast? = some (getLast _ hne) := by
    rw [String.toList_ofList, getLast?_eq_some_getLast]
  have hdig := Nat.isDigit_of_mem_toDigits (b := 10) (by decide) (by decide) (getLast_mem hne)
  rw [hdisplay, heard_of_last hlast (isBlank_of_isDigit hdig) rfl] at hqry
  have hask : Desk.ask "wlist:size?" (⟨⟨⟩, status, s⟩ : Desk PUnit (Simulated Memory)) = _ :=
    bind_of_ok (Desk.onLine_eq hqry _ _)
  exact ⟨_, (bind_of_ok hask).trans (congrArg (·, _) (toInt_toDigits _)), Prod.ext rfl hans⟩

theorem ofText_name (i : ℕ) : Message.ofText s!"wlist:name? {i}" =
    .ok ⟨["wlist", "name"], String.ofList (Nat.toDigits 10 i), true⟩ := by
  have htext : (s!"wlist:name? {i}").toList = "wlist:name".toList ++ '?' :: ' ' :: Nat.toDigits 10 i := by
    change ("wlist:name? " ++ toString i).toList = _
    simp
  have htrim : trim isBlank (Nat.toDigits 10 i) = Nat.toDigits 10 i :=
    trim_of_forall fun c hc => isBlank_of_isDigit (Nat.isDigit_of_mem_toDigits (by decide) (by decide) hc)
  rw [Message.ofText_query htext (by decide), htrim]
  rfl

theorem respondList_name {m : Message} {i : ℕ} {w : Wave}
    (hword : m.word 1 = .ok "name") (hqry : m.isQuery = true) (hread : (Value.text m.argument).toInt = .ok (i : ℤ))
    (hw : s.memory.waves[i]? = some w) : respondList m s = (.ok (some (.text (listed w))), s) := by
  have hpart : (Value.list (s.memory.waves.map (.text ·.name))).part (.int i) = .ok (.text w.name) := by
    have hi : ¬(i : ℤ) < 0 := by omega
    simp [Value.part, Value.asInt?, hi, hw]
  refine (consult_bind _ _ s).trans ((lift_bind_of_ok hword _ s).trans ?_)
  rw [hqry, if_neg (by decide), if_pos (by decide)]
  exact (lift_bind_of_ok hread _ s).trans (lift_bind_of_ok hpart _ s)

theorem yields_name {i : ℕ} {w : Wave} (hw : memory.waves[i]? = some w) :
    Yields session (discard (Desk.ask s!"wlist:name? {i}")) (memory, some answers) ⟨⟩
      (memory, some (answers ++ [listed w])) := by
  rintro ⟨⟨⟩, status, s⟩ hd
  obtain ⟨rfl, hans : s.answers = some answers⟩ := Prod.mk.inj hd
  have hresp : LabBench.Simulation.respond s!"wlist:name? {i}" (s.noted s!"wlist:name? {i}") = _ :=
    (respond_of_list (ofText_name i)).trans (respondList_name rfl rfl (toInt_toDigits i) hw)
  have hqry := query_of_section hresp nofun hans
  have hlast : (listed w).toList.getLast? = some '"' := by rw [toList_listed, getLast?_quoted]
  have hheard : Simulated.heard Simulation.Memory (listed w) = listed w := Simulated.heard_of_last hlast rfl rfl
  rw [Value.display, hheard] at hqry
  exact ⟨_, discard_of_ok (bind_of_ok (Desk.onLine_eq hqry _ _)), rfl⟩

theorem yields_nameList {done todo : List Simulation.Wave} (h : memory.waves = done ++ todo) :
    Yields session ((range' done.length todo.length).forM fun i => discard (Desk.ask s!"wlist:name? {i}"))
      (memory, some answers) ⟨⟩ (memory, some (answers ++ todo.map listed)) := by
  induction todo generalizing done answers with
  | nil =>
    rw [map_nil, append_nil]
    exact .pure _ _ _
  | cons w todo ih =>
    have hw : memory.waves[done.length]? = some w := by simp [h]
    have hrest := @ih (answers ++ [listed w]) (done ++ [w]) (by simp [h])
    rw [length_append, append_assoc] at hrest
    exact (yields_name hw).bind hrest

theorem yields_names :
    Yields session names (memory, none) (memory.waves.map fun w => unquoted w.name) (memory, none) := by
  have hstart : Yields session (Desk.onLine Line.startSection) (memory, none) ⟨⟩ (memory, some []) := by
    rintro ⟨⟨⟩, status, s⟩ hd
    obtain ⟨rfl, -⟩ := Prod.mk.inj hd
    exact ⟨_, rfl, rfl⟩
  have hstop (answers : List String) :
      Yields session (Desk.onLine Line.stopSection) (memory, some answers) (some answers) (memory, none) := by
    rintro ⟨⟨⟩, status, s⟩ hd
    obtain ⟨rfl, hans : s.answers = some answers⟩ := Prod.mk.inj hd
    rw [← hans]
    exact ⟨_, rfl, rfl⟩
  have hlist : Yields session ((range memory.waves.length).forM fun i => discard (Desk.ask s!"wlist:name? {i}"))
      (memory, some []) ⟨⟩ (memory, some (memory.waves.map listed)) := by
    rw [range_eq_range']
    exact yields_nameList (show memory.waves = [] ++ memory.waves from rfl)
  have hnames : (memory.waves.map listed).map unquoted = memory.waves.map fun w => unquoted w.name := by
    rw [map_map]
    refine map_congr_left fun w _ => ?_
    change unquoted (listed w) = unquoted w.name
    rw [unquoted, toList_listed]
    simp [quoted]
  refine yields_size.bind (hstart.bind (hlist.bind ((hstop _).bind ?_)))
  rw [← hnames]
  exact .pure _ _ _

theorem isListed_texts (n : String) (names : List String) :
    (Value.text n).isListed (names.map .text) = .ok (decide (n ∈ names)) := by
  induction names with
  | nil => rfl
  | cons name names ih =>
    have heq : (Value.text name).equal (.text n) = .ok (name == n) := by rw [Value.equal]
    rw [map_cons, Value.isListed, heq]
    by_cases h : name = n
    · subst h
      simp
      rfl
    · have hne : (name == n) = false := by simpa using h
      rw [hne]
      change (Value.text n).isListed (names.map .text) = _
      rw [ih]
      simp [Ne.symm h]

def namesOf (memory : Simulation.Memory) : List String :=
  memory.waves.map fun w => unquoted w.name

theorem yields_isListed (n : String) :
    Yields session (isListed (.text n)) (memory, none) (decide (n ∈ namesOf memory)) (memory, none) :=
  yields_names.bind (.lift _ _ (isListed_texts n _))

/-- The memory without the first waveform with a name. -/
def without (n : String) (memory : Simulation.Memory) : Simulation.Memory :=
  { memory with waves := Simulation.dropFirst (String.ofList (quoted n)) memory.waves }

/-- There is no waveform with a name. -/
def IsMissing (n : String) (memory : Simulation.Memory) : Prop :=
  ∀ w ∈ memory.waves, w.name ≠ String.ofList (quoted n)

theorem unquoted_ofList_quoted (n : String) : unquoted (String.ofList (quoted n)) = n := by
  simp [unquoted, quoted]

theorem isMissing_of_notMem (h : n ∉ namesOf memory) : IsMissing n memory := by
  intro w hw hname
  refine h (mem_map.mpr ⟨w, hw, ?_⟩)
  rw [hname, unquoted_ofList_quoted]

theorem dropFirst_eq_eraseP (name : String) (waves : List Simulation.Wave) :
    Simulation.dropFirst name waves = waves.eraseP (·.name == name) := by
  induction waves with
  | nil => rfl
  | cons w waves ih => rw [Simulation.dropFirst, ih, eraseP_cons, cond_eq_ite]

theorem without_eq_iff : without n memory = memory ↔ IsMissing n memory := by
  constructor
  · intro h w hw hname
    have hlen := length_eraseP_of_mem hw (p := (·.name == String.ofList (quoted n))) (by simpa using hname)
    have hwaves : Simulation.dropFirst (String.ofList (quoted n)) memory.waves = memory.waves :=
      congrArg Simulation.Memory.waves h
    rw [← dropFirst_eq_eraseP, hwaves] at hlen
    have := length_pos_of_mem hw
    omega
  · intro h
    rw [without, dropFirst_eq_eraseP, eraseP_of_forall_not fun w hw => by simpa using h w hw]

theorem ofText_delete (n : String) : Message.ofText s!"wlist:waveform:delete \"{n}\"" =
    .ok ⟨["wlist", "waveform", "delete"], String.ofList (quoted n), false⟩ := by
  have htext : (s!"wlist:waveform:delete \"{n}\"").toList =
      "wlist:waveform:delete".toList ++ ' ' :: (quoted n ++ []) := by
    change ("wlist:waveform:delete \"" ++ n ++ "\"").toList = _
    simp [quoted]
  rw [Message.ofText_command htext (by decide) (by decide) (by decide), trim_quoted_append]
  simp [trimRight]
  rfl

theorem respondList_delete {m : Message} (htopic : m.word 1 = .ok "waveform")
    (hword : m.word 2 = .ok "delete") : respondList m s =
      if s.memory.waves.all (·.name != m.argument) then (.error (.plain .badValue), s)
      else (.ok (some .none), { s with memory := { s.memory with waves := dropFirst m.argument s.memory.waves } }) := by
  refine (consult_bind _ _ s).trans ((lift_bind_of_ok htopic _ s).trans ?_)
  rw [if_neg (by simp), if_neg (by simp), if_neg (by decide)]
  refine (lift_bind_of_ok hword _ s).trans ?_
  dsimp only
  split <;> rfl

/-- A waveform whose name is in the list is taken away. There is none if its name is written in another way. -/
theorem exists_delete {d : Desk PUnit (Simulated Memory)} (hd : session d = (memory, none))
    (hn : n ∈ namesOf memory) : ∃ x d', delete (.text n) d = (x, d') ∧ d'.line.memory = without n memory ∧
      (x = .ok ⟨⟩ ∨ IsMissing n memory) := by
  obtain ⟨⟨⟨⟩, status, s⟩, hlisted, hview⟩ := yields_isListed n d hd
  obtain ⟨rfl, -⟩ := Prod.mk.inj hview
  rw [decide_eq_true hn] at hlisted
  have hresp : LabBench.Simulation.respond s!"wlist:waveform:delete \"{n}\""
      (s.noted s!"wlist:waveform:delete \"{n}\"") = _ :=
    (respond_of_list (ofText_delete n)).trans (respondList_delete rfl rfl)
  rw [delete, bind_of_ok hlisted]
  by_cases hall : IsMissing n s.memory
  · have hnone : s.memory.waves.all (·.name != String.ofList (quoted n)) := by simpa [IsMissing] using hall
    have hrecv := receive_of_error (hresp.trans (if_pos hnone))
    exact ⟨_, _, Desk.write_eq hrecv _ _, (without_eq_iff.mpr hall).symm, .inr hall⟩
  · have hsome : ¬s.memory.waves.all (·.name != String.ofList (quoted n)) := by simpa [IsMissing] using hall
    have hrecv := receive_of_none (hresp.trans (if_neg hsome))
    exact ⟨_, _, Desk.write_eq hrecv _ _, rfl, .inl rfl⟩

/-! ### Unfit waveforms -/

/-- A waveform in volts that is refused: it has no points, or its largest point is too large. -/
inductive Unfit : List Value → Fault → Prop
  | empty : Unfit [] (.plain .badValue)
  | large {points sizes : List Value} {peak : Value} (hsizes : points.mapM Value.absolute = .ok sizes)
    (hpeak : Value.largest sizes = .ok peak) (h : peak.greater maxAmplitude = .ok true) : Unfit points
      (.because .badValue s!"Amplitude {peak.display} V exceeds maximum of {maxAmplitude.display} V")

variable {points : List Value} {f : Fault}

theorem normalised_of_unfit (h : Unfit points f) (channel : ℕ) (d : Desk PUnit (Simulated Memory)) :
    normalised channel points d = (.error f, d) := by
  cases h with
  | empty => rfl
  | large hsizes hpeak h =>
    rw [normalised, hsizes]
    refine (lift_bind_of_ok rfl _ d).trans ((lift_bind_of_ok hpeak _ d).trans ((lift_bind_of_ok h _ d).trans ?_))
    rfl

theorem exists_setWaveform_eq (channel : ℕ) (points : List Value) (markers : Value) (name : Option String) :
    ∃ rest : List Value → Use (Simulated Memory) PUnit, setWaveform channel points markers (Value.ofAnswer name) =
        isListed (.text (name.getD s!"Channel {channel}")) >>= fun found =>
          if found then delete (.text (name.getD s!"Channel {channel}")) >>= fun _ => normalised channel points >>= rest
          else normalised channel points >>= rest := by
  cases name <;> (delta setWaveform; exact ⟨_, rfl⟩)

/-- A waveform that is refused because of its points has already cost the waveform with its name. Nothing else is
changed. -/
theorem setWaveform_of_unfit (h : Unfit points f) (channel : ℕ) (markers : Value) (name : Option String)
    {d : Desk PUnit (Simulated Memory)} (hd : d.line.answers = none) :
    ∃ e d', setWaveform channel points markers (Value.ofAnswer name) d = (.error e, d') ∧
      d'.line.memory = without (name.getD s!"Channel {channel}") d.line.memory ∧
      (d'.line.memory = d.line.memory ↔ IsMissing (name.getD s!"Channel {channel}") d.line.memory) ∧
      (e = f ∨ IsMissing (name.getD s!"Channel {channel}") d.line.memory) := by
  obtain ⟨rest, hset⟩ := exists_setWaveform_eq channel points markers name
  generalize name.getD s!"Channel {channel}" = n at hset ⊢
  have hfail (d₁ : Desk PUnit (Simulated Memory)) : (normalised channel points >>= rest) d₁ = (.error f, d₁) :=
    bind_of_error (normalised_of_unfit h channel d₁)
  have hsession : session d = (d.line.memory, none) := Prod.ext rfl hd
  obtain ⟨d₁, hlisted, hview⟩ := yields_isListed n d hsession
  have hmemory : d₁.line.memory = d.line.memory := congrArg Prod.fst hview
  rw [hset, bind_of_ok hlisted]
  by_cases hn : n ∈ namesOf d.line.memory
  · obtain ⟨x, d₂, hdelete, hd₂, hx⟩ := exists_delete hview hn
    have hsame : d₂.line.memory = d.line.memory ↔ IsMissing n d.line.memory := by
      rw [hd₂, without_eq_iff]
    rw [decide_eq_true hn, if_pos rfl]
    cases x with
    | error e => exact ⟨e, d₂, bind_of_error hdelete, hd₂, hsame, .inr (hx.resolve_left nofun)⟩
    | ok => exact ⟨f, d₂, (bind_of_ok hdelete).trans (hfail d₂), hd₂, hsame, .inl rfl⟩
  · have hmissing : IsMissing n d.line.memory := isMissing_of_notMem hn
    rw [decide_eq_false hn, if_neg nofun]
    exact ⟨f, d₁, hfail d₁, hmemory.trans (without_eq_iff.mpr hmissing).symm, iff_of_true hmemory hmissing, .inl rfl⟩

/-- A source that has a waveform with the name `w`. -/
def stocked : Desk PUnit (Simulated Memory) :=
  { settings := ⟨⟩, line := { memory := { waves := [.zero "\"w\"" 1] } } }

theorem setWaveform_of_unfit_stocked : Unfit [.int 3] (.because .badValue "Amplitude 3 V exceeds maximum of 2.25 V") ∧
    ∃ e d', setWaveform 1 [.int 3] .none (.text "w") stocked = (.error e, d') ∧ d'.line.memory.waves = [] := by
  have hunfit : Unfit [.int 3] (.because .badValue "Amplitude 3 V exceeds maximum of 2.25 V") :=
    @Unfit.large _ [.int 3] (.int 3) rfl rfl (by decide +kernel)
  obtain ⟨e, d', h, hmemory, -⟩ := setWaveform_of_unfit hunfit 1 .none (some "w") (d := stocked) rfl
  exact ⟨hunfit, e, d', h, by rw [hmemory]; rfl⟩

end WaveformSource
end LabBench
