import LabBench.Proofs.Pulse.Checking
import Mathlib.Tactic.MkIffOfInductiveProp
/-!
# What a pulse program says

The variables of a program are those that its declarations and its acquisition announce, and its values are those
that its assignments set. A program is *admissible* if no variable is announced twice, if every value suits its
variable and is set only once, and if all commands fit. None of this depends on where the statements stand in the
source.
-/

namespace LabBench.Pulse

open Environment Statement List

/-! ### Statements at all depths -/

mutual

/-- The statements inside of a statement, at all depths. -/
def Statement.inside : Statement → List Statement
  | .loop _ _ body => allInside body
  | .assign _ | .declare .. | .acquire _ | .delay .. | .pulses _ => []

/-- All statements of a list and those inside of them. -/
def allInside : List Statement → List Statement
  | [] => []
  | s :: rest => s :: (s.inside ++ allInside rest)

end

theorem allInside_eq_flatMap (ss : List Statement) : allInside ss = ss.flatMap fun s => s :: s.inside := by
  induction ss with
  | nil => rw [allInside, flatMap_nil]
  | cons s rest ih => rw [allInside, ih, flatMap_cons, cons_append]

def Statement.isAcquisition : Statement → Bool
  | .acquire _ => true
  | .assign _ | .declare .. | .delay .. | .pulses _ | .loop .. => false

/-- Whether a statement makes a variable known. -/
def Statement.declares : Statement → Bool
  | .acquire _ | .declare .. => true
  | .assign _ | .delay .. | .pulses _ | .loop .. => false

def Statement.assigns : Statement → Bool
  | .assign _ => true
  | .declare .. | .acquire _ | .delay .. | .pulses _ | .loop .. => false

def Statement.isCommand : Statement → Bool
  | .acquire _ | .delay .. | .pulses _ | .loop .. => true
  | .assign _ | .declare .. => false

/-! ### Variables -/

/-- What makes a variable known: its declaration, or an acquisition for its marker. -/
inductive Announcement where
  | named (name : String) (kind : Kind)
  | marker

namespace Announcement

def entry : Announcement → String × Kind
  | named name kind => (name, kind)
  | marker => (markerName, .marker)

/-- A declared variable has to be new, a marker does not. -/
def NewTo (declared : List (String × Kind)) : Announcement → Prop
  | named name _ => name ∉ declared.map (·.1)
  | marker => True

/-- The second announcement may follow the first one. -/
def Admits (a b : Announcement) : Prop :=
  b.NewTo [a.entry]

end Announcement

def Declared.name (d : Declared) : String :=
  d.path.headD ""

/-- The variables that a statement makes known. -/
def Statement.announcements : Statement → List Announcement
  | .declare _ kind names => names.map fun d => .named d.name kind
  | .acquire _ => [.marker]
  | .assign _ | .delay .. | .pulses _ | .loop .. => []

/-! ### Values -/

def Declared.assignment? : Declared → Option Assignment
  | plain _ _ => none
  | assigned a => some a

def Statement.assignments : Statement → List Assignment
  | .assign a => [a]
  | .declare _ _ names => names.filterMap Declared.assignment?
  | .acquire _ | .delay .. | .pulses _ | .loop .. => []

def Content.settings (path : Path) : Content → List (Path × Value)
  | value v => [(path, v)]
  | dictionary entries => (distinctEntries entries).map fun e => (path ++ [e.1], e.2)

def Assignment.settings (a : Assignment) : List (Path × Value) :=
  a.content.settings a.target.path

/-- The target of an assignment is known if it is no attribute, or one that is needed. -/
def Target.KnownAmong (paths : List Path) : Target → Prop
  | named _ => True
  | part _ owner name => [owner, name] ∈ paths

/-- The target of an assignment is known, and its variable is declared. -/
@[mk_iff]
structure Assignment.Meets (declared : List (String × Kind)) (paths : List Path) (a : Assignment) : Prop where
  known : a.target.KnownAmong paths
  declared : a.target.path.headD "" ∈ declared.map (·.1)

/-- A value suits its path if there is nothing to be said against it. -/
def Suits (declared : List (String × Kind)) (setting : Path × Value) : Prop :=
  ∃ name attributes kind, setting.1 = name :: attributes ∧ Entries.get? name declared = some kind ∧
    objection kind attributes setting.2 = none

/-! ### Commands -/

/-- The length of a delay is a time, if it is written out. -/
def Length.IsTime : Length → Prop
  | named _ => True
  | literal q => q.hasUnits "s" = .ok true

/-- The part of a sequence is a time, if it is a delay that is written out. -/
def Piece.IsTime : Piece → Prop
  | named _ => True
  | delay q => q.hasUnits "s" = .ok true

/-- A command that fits a scheme, without the statements in it. -/
def Statement.FitsAlone (σ : Scheme) : Statement → Prop
  | .delay _ length => length.Fits σ ∧ length.IsTime
  | .pulses trains => ∀ t ∈ trains, t.Fits σ ∧ ∀ piece ∈ t.pieces, piece.IsTime
  | .loop _ count _ => count.Fits σ
  | .assign _ | .declare .. | .acquire _ => True

/-! ### Rules -/

/-- The rules for assignments, where the variables and the values that they need are given. -/
@[mk_iff]
structure Consistent (declared : List (String × Kind)) (paths : List Path) (as : List Assignment) : Prop where
  targets : ∀ a ∈ as, a.Meets declared paths
  suits : ∀ setting ∈ as.flatMap Assignment.settings, Suits declared setting
  /-- No value is set twice. -/
  distinct : ((as.flatMap Assignment.settings).map (·.1)).Nodup

/-- The rules for commands, where the scheme is given. -/
@[mk_iff]
structure Orderly (σ : Scheme) (ss : List Statement) : Prop where
  /-- Declarations, acquisitions and assignments do not stand in loops. -/
  inside : ∀ s ∈ ss, ∀ t ∈ s.inside, t.declares = false ∧ t.assigns = false
  fits : ∀ t ∈ allInside ss, t.FitsAlone σ
  acquisition : (allInside ss).countP isAcquisition ≤ 1

/-- The rules for assignments depend neither on their order nor on that of the variables. -/
theorem Consistent.perm {declared declared' : List (String × Kind)} {paths paths' : List Path}
    {as as' : List Assignment} (h : Consistent declared paths as)
    (hdecl : ∀ name, Entries.get? name declared' = Entries.get? name declared)
    (hpaths : ∀ path ∈ paths, path ∈ paths') (hperm : as.Perm as') : Consistent declared' paths' as' := by
  have hset := hperm.flatMap_right Assignment.settings
  refine ⟨fun a ha => ?_, fun x hx => ?_, ?_⟩
  · obtain ⟨hknown, hname⟩ := h.targets a (hperm.mem_iff.mpr ha)
    refine ⟨?_, ?_⟩
    · cases htarget : a.target with
      | named name => trivial
      | part place owner name =>
        rw [htarget] at hknown
        exact hpaths _ hknown
    · rw [← not_not (a := _ ∈ _), ← Entries.get?_eq_none_iff] at hname ⊢
      rwa [hdecl]
  · obtain ⟨name, attributes, kind, hpath, hkind, hobj⟩ := h.suits x (hset.mem_iff.mpr hx)
    exact ⟨name, attributes, kind, hpath, (hdecl name).trans hkind, hobj⟩
  · exact (hset.map _).nodup_iff.mp h.distinct

variable {declared : List (String × Kind)}

theorem consistent_perm_iff {paths : List Path} {as as' : List Assignment}
    (hperm : as.Perm as') : Consistent declared paths as ↔ Consistent declared paths as' :=
  ⟨fun h => h.perm (fun _ => rfl) (fun _ => id) hperm, fun h => h.perm (fun _ => rfl) (fun _ => id) hperm.symm⟩

theorem idle_of_not_isCommand {s : Statement} (h : ¬s.isCommand = true) :
    s.inside = [] ∧ s.isAcquisition = false ∧ ∀ σ, s.FitsAlone σ := by
  cases s with
  | assign a | declare place kind names => exact ⟨by rw [inside], rfl, fun _ => trivial⟩
  | _ => exact absurd rfl h

theorem countP_allInside_filter (ss : List Statement) : (allInside (ss.filter isCommand)).countP isAcquisition =
      (allInside ss).countP isAcquisition := by
  induction ss with
  | nil => rfl
  | cons s rest ih =>
    by_cases hs : s.isCommand = true
    · rw [filter_cons_of_pos hs, allInside, allInside, countP_cons, countP_cons, countP_append, countP_append, ih]
    · obtain ⟨hin, hacq, -⟩ := idle_of_not_isCommand hs
      rw [filter_cons_of_neg hs, ih, allInside, hin, nil_append, countP_cons, hacq]
      simp

theorem orderly_filter_iff {σ : Scheme} {ss : List Statement} : Orderly σ (ss.filter isCommand) ↔ Orderly σ ss := by
  have hall {P : Statement → Prop} (hP : ∀ s, ¬s.isCommand = true → P s) :
      (∀ s ∈ ss.filter isCommand, P s) ↔ ∀ s ∈ ss, P s := by
    simp only [mem_filter, and_imp]
    refine forall₂_congr fun s _ => ⟨fun h => ?_, fun h _ => h⟩
    by_cases hs : s.isCommand = true
    · exact h hs
    · exact hP s hs
  have hin : (∀ s ∈ ss.filter isCommand, ∀ t ∈ s.inside, t.declares = false ∧ t.assigns = false) ↔
      ∀ s ∈ ss, ∀ t ∈ s.inside, t.declares = false ∧ t.assigns = false :=
    hall fun s hs => by simp [(idle_of_not_isCommand hs).1]
  have hfits : (∀ t ∈ allInside (ss.filter isCommand), t.FitsAlone σ) ↔ ∀ t ∈ allInside ss, t.FitsAlone σ := by
    rw [allInside_eq_flatMap, allInside_eq_flatMap, forall_mem_flatMap, forall_mem_flatMap]
    refine hall fun s hs => ?_
    obtain ⟨hin, -, hfits⟩ := idle_of_not_isCommand hs
    simp [hin, hfits σ]
  rw [orderly_iff, orderly_iff, hin, hfits, countP_allInside_filter]

/-! ### Programs -/

namespace Block

/-- What makes the variables of a program known. -/
def announcements (b : Block) : List Announcement :=
  b.flatMap Statement.announcements

/-- The variables of a program with their kinds. -/
def kinds (b : Block) : List (String × Kind) :=
  Entries.ofList (b.announcements.map Announcement.entry)

/-- The values that the variables of a program need. -/
def needed (b : Block) : List Path :=
  b.kinds.flatMap fun e => requiredOf e.1 e.2

def outputs (b : Block) : List String :=
  b.kinds.filterMap fun e => if e.2 = .output then some e.1 else none

def scheme (b : Block) : Scheme :=
  ⟨b.kinds, some b.needed, b.outputs⟩

def assignments (b : Block) : List Assignment :=
  b.flatMap Statement.assignments

def settings (b : Block) : List (Path × Value) :=
  b.assignments.flatMap Assignment.settings

def values (b : Block) : List (Path × Value) :=
  Entries.ofList b.settings

@[mk_iff]
structure Admissible (b : Block) : Prop where
  /-- No variable is announced twice. -/
  announced : b.announcements.Pairwise Announcement.Admits
  consistent : Consistent b.kinds b.needed b.assignments
  orderly : Orderly b.scheme b

end Block

/-! ### Places -/

section Places

variable (f : Nat → Nat) {paths : List Path}

def Target.relocate : Target → Target
  | named name => .named name
  | part place owner name => .part (f place) owner name

def Assignment.relocate (a : Assignment) : Assignment :=
  ⟨f a.place, a.target.relocate f, a.content⟩

/-- A variable in a declaration at another place. -/
def Declared.relocate : Declared → Declared
  | plain place name => .plain (f place) name
  | assigned a => .assigned (a.relocate f)

def Train.relocate (t : Train) : Train :=
  { t with place := f t.place }

mutual

def Statement.relocate : Statement → Statement
  | .assign a => .assign (a.relocate f)
  | .declare place kind names => .declare (f place) kind (names.map (Declared.relocate f))
  | .acquire place => .acquire (f place)
  | .delay place length => .delay (f place) length
  | .pulses trains => .pulses (trains.map (Train.relocate f))
  | .loop place count body => .loop (f place) count (relocateAll body)

def relocateAll : List Statement → List Statement
  | [] => []
  | s :: rest => s.relocate :: relocateAll rest

end

variable {f}

theorem relocateAll_eq_map (ss : List Statement) : relocateAll f ss = ss.map (relocate f) := by
  induction ss with
  | nil => rw [relocateAll, map_nil]
  | cons s rest ih => rw [relocateAll, ih, map_cons]

@[simp] theorem Assignment.relocate_id (a : Assignment) : a.relocate id = a := by
  obtain ⟨place, target, content⟩ := a
  cases target <;> rfl

@[simp] theorem Declared.relocate_id (d : Declared) : d.relocate id = d := by
  cases d with
  | plain place name => rfl
  | assigned a => rw [Declared.relocate, a.relocate_id]

mutual

theorem Statement.relocate_id (s : Statement) : s.relocate id = s := by
  cases s with
  | declare place kind names =>
    rw [relocate, map_id'' Declared.relocate_id, id]
  | pulses trains =>
    have htrains : trains.map (Train.relocate id) = trains := map_id trains
    rw [relocate, htrains]
  | loop place count body => rw [relocate, relocateAll_id body, id]
  | _ => simp [relocate]

theorem relocateAll_id (ss : List Statement) : relocateAll id ss = ss := by
  cases ss with
  | nil => rw [relocateAll]
  | cons s rest => rw [relocateAll, s.relocate_id, relocateAll_id rest]

end

@[simp] theorem Target.path_relocate (t : Target) : (t.relocate f).path = t.path := by
  cases t <;> rfl

@[simp] theorem Declared.name_relocate (d : Declared) : (d.relocate f).name = d.name := by
  cases d with
  | plain place name => rfl
  | assigned a => exact congrArg (fun path : Path => path.headD "") a.target.path_relocate

@[simp] theorem Assignment.settings_relocate (a : Assignment) : (a.relocate f).settings = a.settings := by
  simp [Assignment.settings, Assignment.relocate]

theorem Assignment.meets_relocate_iff {a : Assignment} :
    (a.relocate f).Meets declared paths ↔ a.Meets declared paths := by
  have hknown : (a.relocate f).target.KnownAmong paths ↔ a.target.KnownAmong paths := by
    unfold Assignment.relocate
    cases a.target <;> exact Iff.rfl
  have hpath : (a.relocate f).target.path = a.target.path := a.target.path_relocate
  rw [Assignment.meets_iff, Assignment.meets_iff, hknown, hpath]

namespace Statement

@[simp] theorem announcements_relocate (s : Statement) : (s.relocate f).announcements = s.announcements := by
  cases s <;> simp [relocate, Statement.announcements]

theorem assignments_relocate (s : Statement) :
    (s.relocate f).assignments = s.assignments.map (Assignment.relocate f) := by
  cases s with
  | declare place kind names =>
    simp only [relocate, Statement.assignments, filterMap_map, map_filterMap]
    refine filterMap_congr fun d _ => ?_
    cases d <;> rfl
  | _ => simp [relocate, Statement.assignments]

@[simp] theorem declares_relocate (s : Statement) : (s.relocate f).declares = s.declares := by
  cases s <;> simp [relocate, declares]

@[simp] theorem assigns_relocate (s : Statement) : (s.relocate f).assigns = s.assigns := by
  cases s <;> simp [relocate, assigns]

@[simp] theorem isAcquisition_relocate (s : Statement) : (s.relocate f).isAcquisition = s.isAcquisition := by
  cases s <;> simp [relocate, isAcquisition]

theorem fitsAlone_relocate_iff {σ : Scheme} {s : Statement} : (s.relocate f).FitsAlone σ ↔ s.FitsAlone σ := by
  cases s with
  | pulses trains =>
    have htrain (t : Train) : (t.relocate f).Fits σ ↔ t.Fits σ :=
      ⟨fun h => ⟨h.output, h.pieces⟩, fun h => ⟨h.output, h.pieces⟩⟩
    simp only [relocate, FitsAlone, forall_mem_map, htrain]
    exact Iff.rfl
  | _ => simp [relocate, FitsAlone]

end Statement

mutual

theorem Statement.inside_relocate (s : Statement) : (s.relocate f).inside = s.inside.map (relocate f) := by
  cases s with
  | loop place count body =>
    rw [relocate, inside, inside, allInside_relocateAll]
  | _ => simp [relocate, inside]

theorem allInside_relocateAll (ss : List Statement) :
    allInside (relocateAll f ss) = (allInside ss).map (relocate f) := by
  cases ss with
  | nil => simp [relocateAll, allInside]
  | cons s rest =>
    rw [relocateAll, allInside, allInside, s.inside_relocate, allInside_relocateAll rest, map_cons, map_append]

end

theorem allInside_map_relocate (ss : List Statement) :
    allInside (ss.map (relocate f)) = (allInside ss).map (relocate f) := by
  rw [← relocateAll_eq_map, allInside_relocateAll]

theorem consistent_map_relocate_iff {as : List Assignment} :
    Consistent declared paths (as.map (Assignment.relocate f)) ↔ Consistent declared paths as := by
  have hset : (as.map (Assignment.relocate f)).flatMap Assignment.settings = as.flatMap Assignment.settings := by
    simp [flatMap_map]
  have htargets : (∀ a ∈ as.map (Assignment.relocate f), a.Meets declared paths) ↔
      ∀ a ∈ as, a.Meets declared paths := by
    simp [Assignment.meets_relocate_iff]
  rw [consistent_iff, consistent_iff, hset, htargets]

theorem orderly_map_relocate_iff {σ : Scheme} {ss : List Statement} :
    Orderly σ (ss.map (relocate f)) ↔ Orderly σ ss := by
  have hin : (∀ s ∈ ss.map (relocate f), ∀ t ∈ s.inside, t.declares = false ∧ t.assigns = false) ↔
      ∀ s ∈ ss, ∀ t ∈ s.inside, t.declares = false ∧ t.assigns = false := by
    simp [inside_relocate]
  have hfits : (∀ t ∈ allInside (ss.map (relocate f)), t.FitsAlone σ) ↔ ∀ t ∈ allInside ss, t.FitsAlone σ := by
    simp [allInside_map_relocate, fitsAlone_relocate_iff]
  have hcnt : (allInside (ss.map (relocate f))).countP isAcquisition = (allInside ss).countP isAcquisition := by
    simp [allInside_map_relocate, countP_map, Function.comp_def]
  rw [orderly_iff, orderly_iff, hin, hfits, hcnt]

end Places

namespace Block

/-- A program without its places. -/
def bare (b : Block) : Block :=
  b.map (relocate fun _ => 0)

variable (b : Block)

@[simp] theorem announcements_bare : b.bare.announcements = b.announcements := by
  simp [announcements, bare, flatMap_map]

@[simp] theorem kinds_bare : b.bare.kinds = b.kinds := by
  rw [kinds, announcements_bare, kinds]

@[simp] theorem needed_bare : b.bare.needed = b.needed := by
  rw [needed, kinds_bare, needed]

@[simp] theorem outputs_bare : b.bare.outputs = b.outputs := by
  rw [outputs, kinds_bare, outputs]

@[simp] theorem scheme_bare : b.bare.scheme = b.scheme := by
  rw [scheme, kinds_bare, needed_bare, outputs_bare, scheme]

theorem assignments_bare : b.bare.assignments = b.assignments.map (Assignment.relocate fun _ => 0) := by
  simp [assignments, bare, flatMap_map, map_flatMap, assignments_relocate]

@[simp] theorem settings_bare : b.bare.settings = b.settings := by
  simp [settings, assignments_bare, flatMap_map]

variable {b}

theorem admissible_bare_iff : b.bare.Admissible ↔ b.Admissible := by
  have horderly : Orderly b.bare.scheme b.bare ↔ Orderly b.scheme b := by
    rw [scheme_bare, bare, orderly_map_relocate_iff]
  rw [admissible_iff, admissible_iff, announcements_bare, kinds_bare, needed_bare, assignments_bare,
    consistent_map_relocate_iff, horderly]

end Block

end LabBench.Pulse
