import LabBench.Proofs.Pulse.Acceptance
/-!
# Dictionaries and attributes

A dictionary sets several attributes of a variable at once. Written out, there is one assignment for each of its
entries. The attributes are checked only in the second form, and a key that comes twice is noticed only there: the
program that is written out is accepted exactly if the other one is accepted, the keys are different, and all of
them are attributes. Then the values are the same.

## Main results

* `ofSource_spellsOut`
-/

namespace LabBench.Pulse

open Environment Text Block Entries List

/-! ### Dictionaries written out -/

def attributes (name : String) (entries : List (String × Value)) : List Assignment :=
  entries.map fun e => ⟨0, .part 0 name e.1, .value e.2⟩

def wholesale (name : String) (entries : List (String × Value)) : Assignment :=
  ⟨0, .named name, .dictionary entries⟩

/-- In a program without places the assignment of a dictionary is written out. If it stands in a declaration, then
its variable is declared without it, and the assignments come later. -/
inductive SpellsOut (name : String) (entries : List (String × Value)) : Block → Block → Prop
  | assign (before after : Block) : SpellsOut name entries (before ++ .assign (wholesale name entries) :: after)
        (before ++ ((attributes name entries).map .assign ++ after))
  | declare (before between after : Block) (kind : Kind) (names names' : List Declared) : SpellsOut name entries
        (before ++ .declare 0 kind (names ++ .assigned (wholesale name entries) :: names') :: (between ++ after))
        (before ++ .declare 0 kind (names ++ .plain 0 name :: names') ::
          (between ++ ((attributes name entries).map .assign ++ after)))

section Attributes

variable {name : String} {entries : List (String × Value)}

theorem settings_attributes :
    (attributes name entries).flatMap Assignment.settings = entries.map fun e => ([name, e.1], e.2) := by
  induction entries with
  | nil => rfl
  | cons e rest ih =>
    rw [attributes, map_cons, flatMap_cons] at *
    rw [ih]
    rfl

theorem settings_wholesale (h : (entries.map (·.1)).Nodup) :
    (wholesale name entries).settings = entries.map fun e => ([name, e.1], e.2) := by
  have hdist : distinctEntries entries = entries := ofList_eq_self h
  change (distinctEntries entries).map _ = _
  rw [hdist]
  rfl

/-- The assignments of attributes need in addition that the attributes are known and come only once. -/
theorem consistent_attributes_iff {declared : List (String × Kind)} {paths : List Path}
    {as : List Assignment} (hname : name ∈ declared.map (·.1)) :
    Consistent declared paths (attributes name entries ++ as) ↔
      Consistent declared paths (wholesale name entries :: as) ∧ (entries.map (·.1)).Nodup ∧
        ∀ e ∈ entries, [name, e.1] ∈ paths := by
  have hset (h : (entries.map (·.1)).Nodup) : (attributes name entries ++ as).flatMap Assignment.settings =
        (wholesale name entries :: as).flatMap Assignment.settings := by
    rw [flatMap_append, flatMap_cons, settings_attributes, settings_wholesale h]
  constructor
  · intro h
    have hnd : (entries.map (·.1)).Nodup := by
      have hdist := h.distinct
      rw [flatMap_append, settings_attributes, map_append] at hdist
      refine Nodup.of_map (fun k => [name, k]) ?_
      rw [map_map] at hdist ⊢
      exact hdist.of_append_left
    have hmeets : (wholesale name entries).Meets declared paths := ⟨trivial, hname⟩
    refine ⟨⟨?_, hset hnd ▸ h.suits, hset hnd ▸ h.distinct⟩, hnd, fun e he => ?_⟩
    · exact forall_mem_cons.mpr ⟨hmeets, fun a ha => h.targets a (mem_append_right _ ha)⟩
    · exact (h.targets _ (mem_append_left _ (mem_map_of_mem he))).known
  · rintro ⟨h, hnd, hknown⟩
    refine ⟨?_, (hset hnd).symm ▸ h.suits, (hset hnd).symm ▸ h.distinct⟩
    refine forall_mem_append.mpr ⟨fun a ha => ?_, fun a ha => h.targets a (mem_cons_of_mem _ ha)⟩
    obtain ⟨e, he, rfl⟩ := mem_map.mp ha
    exact ⟨hknown e he, hname⟩

/-! ### Programs -/

variable {b b' : Block}

section

variable (h : SpellsOut name entries b b')

include h

theorem SpellsOut.announcements_eq : b'.announcements = b.announcements := by
  have hattr : ((attributes name entries).map Statement.assign).flatMap Statement.announcements = [] := by
    simp [Statement.announcements]
  cases h with
  | assign before after =>
    simp only [announcements, flatMap_append, flatMap_cons, hattr]
    rfl
  | declare before between after kind names names' =>
    simp only [announcements, flatMap_append, flatMap_cons, hattr, Statement.announcements, map_append, map_cons]
    rfl

theorem SpellsOut.commands_eq : b'.filter Statement.isCommand = b.filter Statement.isCommand := by
  have hattr : ((attributes name entries).map Statement.assign).filter Statement.isCommand = [] := by
    simp [Statement.isCommand]
  cases h with
  | assign before after => simp [hattr, Statement.isCommand]
  | declare before between after kind names names' => simp [hattr, Statement.isCommand]

theorem SpellsOut.exists_assignments :
    ∃ as, b.assignments.Perm (wholesale name entries :: as) ∧ b'.assignments.Perm (attributes name entries ++ as) := by
  have hattr : ((attributes name entries).map Statement.assign).flatMap Statement.assignments =
      attributes name entries := by
    simp [Statement.assignments, flatMap_map]
  cases h with
  | assign before after =>
    refine ⟨assignments before ++ assignments after, ?_, ?_⟩
    · simp only [assignments, flatMap_append, flatMap_cons, Statement.assignments]
      exact perm_middle
    · simp only [assignments, flatMap_append, hattr]
      exact (perm_append_comm_assoc _ _ _)
  | declare before between after kind names names' =>
    have hplain : (Declared.plain 0 name :: names').filterMap Declared.assignment? =
        names'.filterMap Declared.assignment? := rfl
    have hasg : (Declared.assigned (wholesale name entries) :: names').filterMap Declared.assignment? =
        wholesale name entries :: names'.filterMap Declared.assignment? := rfl
    refine ⟨(assignments before ++ names.filterMap Declared.assignment?) ++
      (names'.filterMap Declared.assignment? ++ assignments between ++ assignments after), ?_, ?_⟩
    · refine Perm.trans (.of_eq ?_) perm_middle
      simp only [assignments, flatMap_append, flatMap_cons, Statement.assignments,
        filterMap_append, hasg, append_assoc, cons_append]
    · rw [← append_assoc _ _ (assignments after)]
      refine Perm.trans (.of_eq ?_) (perm_append_comm_assoc _ _ _)
      simp only [assignments, flatMap_append, flatMap_cons, Statement.assignments,
        filterMap_append, hattr, hplain, append_assoc]

theorem SpellsOut.perm_settings (hnd : (entries.map (·.1)).Nodup) : b'.settings.Perm b.settings := by
  obtain ⟨as, has, has'⟩ := h.exists_assignments
  have hmiddle : (attributes name entries ++ as).flatMap Assignment.settings =
      (wholesale name entries :: as).flatMap Assignment.settings := by
    rw [flatMap_append, flatMap_cons, settings_attributes, settings_wholesale hnd]
  exact (has'.flatMap_right _).trans (hmiddle ▸ (has.flatMap_right _).symm)

theorem SpellsOut.admissible_iff (hname : name ∈ b.kinds.map (·.1)) :
    b'.Admissible ↔ b.Admissible ∧ (entries.map (·.1)).Nodup ∧ ∀ e ∈ entries, [name, e.1] ∈ b.needed := by
  have hkinds : b'.kinds = b.kinds := by rw [Block.kinds, h.announcements_eq, Block.kinds]
  have hneeded : b'.needed = b.needed := by rw [needed, hkinds, needed]
  have hscheme : b'.scheme = b.scheme := by
    rw [Block.scheme, hneeded, hkinds, Block.outputs, hkinds, Block.scheme, Block.outputs]
  have horderly : Orderly b'.scheme b' ↔ Orderly b.scheme b := by
    rw [hscheme, ← orderly_filter_iff, h.commands_eq, orderly_filter_iff]
  obtain ⟨as, has, has'⟩ := h.exists_assignments
  have hcons : Consistent b'.kinds b'.needed b'.assignments ↔
      Consistent b.kinds b.needed b.assignments ∧ (entries.map (·.1)).Nodup ∧
        ∀ e ∈ entries, [name, e.1] ∈ b.needed := by
    rw [hkinds, hneeded, consistent_perm_iff has', consistent_attributes_iff hname, consistent_perm_iff has]
  constructor
  · intro hb'
    obtain ⟨hb, hents⟩ := hcons.mp hb'.consistent
    exact ⟨⟨h.announcements_eq ▸ hb'.announced, hb, horderly.mp hb'.orderly⟩, hents⟩
  · rintro ⟨hb, hents⟩
    exact ⟨h.announcements_eq.symm ▸ hb.announced, hcons.mpr ⟨hb.consistent, hents⟩, horderly.mpr hb.orderly⟩

end

end Attributes

namespace Program

theorem missing_of_environment {p : Program} {b : Block} {start : Environment} (h : p.env = b.environment start)
    (hstart : start.IsBlank) : p.missing = .ok (b.needed.filter fun path => !has path b.values) := by
  have hvals : (b.environment start).values = b.values := by
    change putAll b.settings start.values = _
    rw [hstart.values]
    rfl
  rw [Program.missing, h, Environment.missing, hvals]
  rfl

variable {source source' : String} (folder : Option Folder) (filename : String) {b b' : Block} {name : String}
  {entries : List (String × Value)}

/-- If a dictionary in a source is written out, then the source is still accepted exactly if its keys are different
and all of them are attributes. In this case the values are the same, and so are those that are still needed. -/
theorem ofSource_spellsOut (h : read (expandTabs source) = .ok b) (h' : read (expandTabs source') = .ok b')
    (hout : SpellsOut name entries b.bare b'.bare) (hname : name ∈ b.kinds.map (·.1)) :
    ((∃ p', ofSource source' folder filename = .ok p') ↔
      (∃ p, ofSource source folder filename = .ok p) ∧ (entries.map (·.1)).Nodup ∧
        ∀ e ∈ entries, [name, e.1] ∈ b.needed) ∧
    ∀ p p', ofSource source folder filename = .ok p → ofSource source' folder filename = .ok p' →
      (∀ path, get? path p'.env.values = get? path p.env.values) ∧ p'.missing = p.missing := by
  have hadmissible : b'.Admissible ↔
      b.Admissible ∧ (entries.map (·.1)).Nodup ∧ ∀ e ∈ entries, [name, e.1] ∈ b.needed := by
    rw [← admissible_bare_iff, hout.admissible_iff (by rwa [kinds_bare]), admissible_bare_iff, needed_bare]
  refine ⟨?_, fun p p' hp hp' => ?_⟩
  · rw [exists_ofSource_iff h, exists_ofSource_iff h', hadmissible]
  · obtain ⟨-, hertz, -, henv⟩ := exists_environment_of_ofSource h hp
    obtain ⟨-, hertz', -, henv'⟩ := exists_environment_of_ofSource h' hp'
    obtain ⟨hb, hnodup, -⟩ := hadmissible.mp ((exists_ofSource_iff h').mp ⟨p', hp'⟩)
    have hperm : b'.settings.Perm b.settings := by
      have := hout.perm_settings hnodup
      rwa [settings_bare, settings_bare] at this
    have hvalues (path : Path) : get? path b'.values = get? path b.values :=
      get?_ofList_congr (unambiguous_of_nodup hb.consistent.distinct) (fun _ => hperm.mem_iff) path
    have hkinds : b'.kinds = b.kinds := by
      rw [← kinds_bare b', Block.kinds, hout.announcements_eq, announcements_bare, Block.kinds]
    refine ⟨by rw [henv, henv']; exact hvalues, ?_⟩
    rw [missing_of_environment henv (isBlank_blank _ _ _),
      missing_of_environment henv' (isBlank_blank _ _ _), needed, needed, hkinds]
    simp only [has_congr (hvalues _)]

/-- A dictionary in a declaration, written out after the declaration and another assignment. -/
theorem ofSource_spellsOut_shape : ∃ p p', ofSource "pulse p = \x7bshape: 'square'\x7d, q\nq.shape = 'ramp'\n" = .ok p ∧
      ofSource "pulse p, q\nq.shape = 'ramp'\np.shape = 'square'\n" = .ok p' ∧
      (∀ path, get? path p'.env.values = get? path p.env.values) ∧ p'.missing = p.missing := by
  have h : read (expandTabs "pulse p = \x7bshape: 'square'\x7d, q\nq.shape = 'ramp'\n") = .ok
      [.declare 0 .pulse [.assigned ⟨6, .named "p", .dictionary [("shape", .text "square")]⟩, .plain 29 "q"],
        .assign ⟨31, .part 31 "q" "shape", .value (.text "ramp")⟩] := by
    with_unfolding_all rfl
  have h' : read (expandTabs "pulse p, q\nq.shape = 'ramp'\np.shape = 'square'\n") = .ok
      [.declare 0 .pulse [.plain 6 "p", .plain 9 "q"], .assign ⟨11, .part 11 "q" "shape", .value (.text "ramp")⟩,
        .assign ⟨28, .part 28 "p" "shape", .value (.text "square")⟩] := by
    with_unfolding_all rfl
  have hout : SpellsOut "p" [("shape", .text "square")] _ _ :=
    .declare [] [.assign ⟨0, .part 0 "q" "shape", .value (.text "ramp")⟩] [] .pulse [] [.plain 0 "q"]
  obtain ⟨p, hp⟩ := Outcome.exists_of_isOk
    (show (ofSource "pulse p = \x7bshape: 'square'\x7d, q\nq.shape = 'ramp'\n").isOk = true by decide +kernel)
  obtain ⟨haccepted, hsame⟩ := ofSource_spellsOut none "" h h' hout (by decide)
  obtain ⟨p', hp'⟩ := haccepted.mpr ⟨⟨p, hp⟩, by decide, by decide⟩
  exact ⟨p, p', hp, hp', hsame p p' hp hp'⟩

-- an attribute that there is not, and one that comes twice
example : (ofSource "pulse p = \x7bbogus: 1\x7d\n").isOk = true ∧ (ofSource "pulse p\np.bogus = 1\n").isOk = false := by
  decide +kernel

example : (ofSource "pulse p = \x7bshape: 'a', shape: 'b'\x7d\n").isOk = true ∧
    (ofSource "pulse p\np.shape = 'a'\np.shape = 'b'\n").isOk = false := by
  decide +kernel

end Program

end LabBench.Pulse
