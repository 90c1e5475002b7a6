import LabBench.Proofs.Pulse.Comparison
/-!
# What the checks of a pulse program establish

A program that has been read without problems *fits* its variables: the name of a delay is that of a
delay, a count is a whole number, a sequence consists of delays and pulses and goes to an output, and
there is a marker if there is an acquisition. The checks collect problems and go on after them, so
what they establish can be seen only at the end, when there are none.
-/

/-! ### What the commands of a pulse program leave alone -/

namespace LabBench

open Act List

/-! ### Waveforms under construction -/

namespace Generator

/-- The frequency of a waveform, and whether it is only rehearsed. -/
def manner (g : Generator) : Value × Bool :=
  (g.frequency, g.rehearsal)

theorem keeps_checkLength (additional : Int) : Keeps manner (checkLength additional) := by
  refine .get_bind fun g => ?_
  by_cases hlong : g.length + additional > g.maxLength
  · rw [if_pos hlong]
    rfl
  · rw [if_neg hlong]
    rfl

theorem keeps_mark (name level : Value) : Keeps manner (mark name level) := by
  refine .get_bind fun g => ?_
  split
  · rfl
  · split
    · rfl
    · rfl

/-- A computation that does nothing to a waveform but put as many points on it as it has counted. -/
def IsGrowth (act : Act Generator PUnit) : Prop :=
  ∀ P, (∀ additional points, points.size = additional.toNat → Preserves P (grow additional points)) → Preserves P act

theorem isGrowth_pure : IsGrowth (pure ⟨⟩) :=
  fun _ _ => .pure _

theorem isGrowth_setNext (point : Float) : IsGrowth (setNext point) :=
  fun _ h => h 1 #[point] rfl

theorem isGrowth_delay (time : Value) (lessPoints : Int) : IsGrowth (delay time lessPoints) :=
  fun _ h => Preserves.get.bind fun _ => (Preserves.lift _).bind fun _ => h _ _ Array.size_replicate

theorem isGrowth_square (amplitude : Float) (time : Value) : IsGrowth (square amplitude time) :=
  fun P h => Preserves.get.bind fun _ => (isGrowth_setNext amplitude P h).bind fun _ =>
    (isGrowth_delay time 1 P h).bind fun _ => isGrowth_setNext _ P h

theorem isGrowth_pulse (points : Array Float) (amplitude time : Value) : IsGrowth (pulse points amplitude time) :=
  fun _ h => Preserves.get.bind fun _ => (Preserves.lift _).bind fun data => h data.size data rfl

theorem isGrowth_pause (time : Value) : IsGrowth (Pulse.Environment.pause time) :=
  fun P h => (isGrowth_setNext 0.0 P h).bind fun _ => isGrowth_delay time 1 P h

theorem Growth.isGrowth {act : Act Generator PUnit} (h : Growth act) : IsGrowth act := by
  cases h with
  | pure => exact isGrowth_pure
  | pause time => exact isGrowth_pause time
  | square amplitude time => exact isGrowth_square amplitude time
  | pulse points amplitude time => exact isGrowth_pulse points amplitude time

theorem IsGrowth.keeps_manner {act : Act Generator PUnit} (h : IsGrowth act) : Keeps manner act :=
  fun g => h (manner · = g.manner) (fun additional _ _ =>
    ((keeps_checkLength additional).preserves _).bind fun _ => (Keeps.modify fun _ => rfl).preserves _) g rfl

end Generator

namespace Pulse.Environment

/-- What commands leave alone: the variables and their values, the folder of the shapes, and the
outputs with a view of their waveforms. -/
structure Fixtures (γ : Type) where
  declared : List (String × Kind)
  values : List (Path × Value)
  required : Option (List Path)
  folder : Option Folder
  outputs : List (String × γ)

variable {γ : Type} {view : Generator → γ}

/-- What commands leave alone in an environment, if they leave a view of its waveforms alone. -/
def fixtures (view : Generator → γ) (e : Environment) : Fixtures γ :=
  ⟨e.declared, e.values, e.required, e.folder, e.generators.map fun g => (g.1, view g.2)⟩

theorem exists_of_fixtures {e e' : Environment} (h : e'.fixtures view = e.fixtures view)
    {g' : String × Generator} (hg' : g' ∈ e'.generators) : ∃ g ∈ e.generators, view g'.2 = view g.2 := by
  have houts : e'.generators.map (fun g => (g.1, view g.2)) =
      e.generators.map fun g => (g.1, view g.2) := congrArg Fixtures.outputs h
  obtain ⟨g, hg, hsame⟩ := mem_map.mp (houts ▸ mem_map_of_mem hg')
  exact ⟨g, hg, (congrArg Prod.snd hsame).symm⟩

/-! ### Outputs -/

private theorem map_view_put {gs : List (String × Generator)} {name : String} {g g' : Generator}
    (hget : Entries.get? name gs = some g) (hview : view g' = view g) :
    (Entries.put name g' gs).map (fun g => (g.1, view g.2)) = gs.map fun g => (g.1, view g.2) := by
  induction gs with
  | nil => cases hget
  | cons a rest ih =>
    rw [Entries.get?] at hget
    rw [Entries.put]
    split at hget
    · rename_i heq
      cases hget
      rw [if_pos heq, map_cons, map_cons, hview]
    · rename_i hne
      rw [if_neg hne, map_cons, map_cons, ih hget]

theorem keeps_onOutput (name : String) {act : Act Generator PUnit} (h : Keeps view act) :
    Keeps (fixtures view) (onOutput name act) := by
  intro e
  unfold onOutput
  split
  · rfl
  · rename_i g hget
    rcases hact : act g with ⟨r, g'⟩
    simp only [fixtures, map_view_put hget (h.apply hact)]

private theorem map_view_onEach {act : Act Generator PUnit} (h : Keeps view act) (gs : List (String × Generator)) :
    (onEach act gs).2.map (fun g => (g.1, view g.2)) = gs.map fun g => (g.1, view g.2) := by
  induction gs with
  | nil => rfl
  | cons a rest ih =>
    rw [onEach]
    rcases hact : act a.2 with ⟨f | _, g⟩
    · simp only [map_cons, h.apply hact]
    · simp only [map_cons, h.apply hact, ih]

theorem keeps_onAll {act : Act Generator PUnit} (h : Keeps view act) : Keeps (fixtures view) (onAll act) := by
  intro e
  simp only [onAll, fixtures, map_view_onEach h]

theorem within_eq_ok {α : Type} {e e' : Environment} {frame : Frame} {act : Act Environment α} {a : α} :
    within frame act e = (.ok a, e') ↔ ∃ t, act { e with stack := frame :: e.stack } = (.ok a, t) ∧
        e' = { t with stack := t.stack.tail } := by
  change (act >>= _) { e with stack := frame :: e.stack } = _ ↔ _
  rw [bind_eq_ok]
  constructor
  · rintro ⟨b, t, hact, h⟩
    cases h
    exact ⟨t, hact, rfl⟩
  · rintro ⟨t, hact, rfl⟩
    exact ⟨a, t, hact, rfl⟩

theorem keeps_within {α : Type} (frame : Frame) {act : Act Environment α}
    (h : Keeps (fixtures view) act) : Keeps (fixtures view) (within frame act) := by
  refine (Keeps.modify fun e => ?_).bind fun _ => h.bind fun a =>
    (Keeps.modify fun e => ?_).bind fun _ => .pure a
  · rfl
  · rfl

theorem keeps_addProblem (message : String) (place : Nat) : Keeps (fixtures view) (addProblem message place) := by
  refine .get_bind fun e => ?_
  cases hloc : locate e.source place with
  | error f | ok location => rfl

theorem keeps_playAcquisition (h : ∀ number level, Keeps view (Generator.mark number level)) :
    Keeps (fixtures view) playAcquisition := by
  refine .get_bind fun e => ((Keeps.lift _).bind fun number =>
    (Keeps.lift _).bind fun output => ?_) e
  cases output with
  | text name => exact keeps_onOutput name (h _ _)
  | tuple items =>
    dsimp only
    cases (Value.tuple items).isSettled <;> exact fun _ => rfl
  | _ => exact fun _ => rfl

/-! ### Whole programs -/

/-- Either values are missing, or it is not even known which ones are needed, or the commands are
carried out on fresh waveforms. -/
theorem play_cases (e : Environment) :
    (∃ f, (e.required = none ∨ f.kind = .badValue) ∧ ∀ block, play block e = (.error f, e)) ∨
      ∀ block, play block e = within .block (playAll block) { e with
        generators := e.generators.map fun g => (g.1, Generator.fresh e.frequency e.rehearsal) } := by
  have hplay (block : Block) : play block e = (Act.lift e.missing >>= _) e := rfl
  rcases hmiss : e.missing with f | _ | ⟨path, paths⟩
  · refine .inl ⟨f, .inl ?_, fun block => ?_⟩
    · unfold missing at hmiss
      split at hmiss
      · assumption
      · cases hmiss
    · rw [hplay, hmiss]
      rfl
  · refine .inr fun block => ?_
    rw [hplay, hmiss]
    rfl
  · exact .inl ⟨.because .badValue _, .inr rfl, fun block => by rw [hplay, hmiss]; rfl⟩

end Pulse.Environment

end LabBench

namespace LabBench.Pulse

open Act Entries Statement List

/-- The variables of a program with their kinds, the values that they need, and the outputs. -/
structure Scheme where
  declared : List (String × Kind)
  required : Option (List Path)
  outputs : List String

def Environment.scheme (e : Environment) : Scheme :=
  ⟨e.declared, e.required, e.generators.map (·.1)⟩

/-! ### Programs that fit a scheme -/

namespace Scheme

def kindOf (σ : Scheme) (name : String) : Option Kind :=
  get? name σ.declared

/-- Every variable that is declared as an output is one, and all values that the variables need are
known to be needed. -/
structure Sound (σ : Scheme) : Prop where
  output : ∀ name, σ.kindOf name = some .output → name ∈ σ.outputs
  required : ∃ paths, σ.required = some paths ∧
    ∀ name kind, σ.kindOf name = some kind → ∀ path ∈ Environment.requiredOf name kind, path ∈ paths

end Scheme

/-- The length of a delay fits if it is given by a delay. -/
def Length.Fits (σ : Scheme) : Length → Prop
  | named name => σ.kindOf name = some .delay
  | literal _ => True

/-- The number of repetitions fits if it is given by a whole number. -/
def Count.Fits (σ : Scheme) : Count → Prop
  | named name => σ.kindOf name = some .int
  | literal _ => True

/-- A part of a sequence fits if it is a delay or a pulse. -/
def Piece.Fits (σ : Scheme) : Piece → Prop
  | named name => σ.kindOf name = some .delay ∨ σ.kindOf name = some .pulse
  | delay _ => True

/-- A sequence fits if its parts do and if it goes to an output. -/
structure Train.Fits (σ : Scheme) (t : Train) : Prop where
  output : t.output ∈ σ.outputs
  pieces : ∀ piece ∈ t.pieces, piece.Fits σ

mutual

def Statement.Fits (σ : Scheme) : Statement → Prop
  | .acquire _ => σ.kindOf Environment.markerName = some .marker
  | .delay _ length => length.Fits σ
  | .pulses trains => ∀ t ∈ trains, t.Fits σ
  | .loop _ count body => count.Fits σ ∧ FitAll σ body
  | .assign _ | .declare .. => True

def FitAll (σ : Scheme) : List Statement → Prop
  | [] => True
  | s :: rest => s.Fits σ ∧ FitAll σ rest

end

mutual

/-- Whether there is an acquisition in a statement. -/
def Statement.acquires : Statement → Bool
  | .acquire _ => true
  | .loop _ _ body => anyAcquires body
  | .assign _ | .declare .. | .delay .. | .pulses _ => false

/-- Whether there is an acquisition in some statements. -/
def anyAcquires : List Statement → Bool
  | [] => false
  | s :: rest => s.acquires || anyAcquires rest

end

namespace Environment

/-! ### Declarations -/

def Marked (e : Environment) : Prop :=
  e.kindOf markerName = some .marker

theorem marked_put (e : Environment) : Marked { e with declared := put markerName .marker e.declared } := by
  rw [Marked, kindOf, get?_put, if_pos (beq_self_eq_true markerName)]

theorem preserves_marked_addProblem (message : String) (place : Nat) : Preserves Marked (addProblem message place) := by
  intro e hmark
  rw [addProblem, get_bind]
  exact of_lift_bind hmark fun location _ => hmark

theorem preserves_declareVariable (kind : Kind) (d : Declared) : Preserves Marked (declareVariable kind d) := by
  unfold declareVariable
  split
  · exact .pure _
  · rename_i name _ _
    intro e hmark
    rw [get_bind]
    by_cases hhas : has name e.declared = true
    · rw [if_pos hhas]
      exact preserves_marked_addProblem _ _ e hmark
    · rw [if_neg hhas]
      have hne : name ≠ markerName := by
        rintro rfl
        exact hhas (has_iff_mem_keys.mpr (mem_map_of_mem (mem_of_get? hmark)))
      change get? markerName (put name kind e.declared) = some .marker
      rw [get?_put, if_neg (by simpa using hne)]
      exact hmark

mutual

/-- The marker of an acquisition outlasts the declarations that follow. -/
theorem marked_of_declareIn (s : Statement) {e e' : Environment} {u : PUnit}
    (h : declareIn s e = (.ok u, e')) (hs : s.acquires = true ∨ e.Marked) : e'.Marked := by
  cases s with
  | acquire place =>
    rw [declareIn, get_bind] at h
    split at h
    · obtain ⟨_, t, -, h⟩ := bind_eq_ok.mp h
      cases h
      exact marked_put t
    · cases h
      exact marked_put e
  | declare place kind names =>
    have hmark : e.Marked := hs.resolve_left nofun
    have hnames : Preserves Marked (names.forM (declareVariable kind)) :=
      .forM fun d _ => preserves_declareVariable kind d
    rw [declareIn, get_bind] at h
    split at h
    · obtain ⟨_, t, ht, h⟩ := bind_eq_ok.mp h
      exact hnames.apply h ((preserves_marked_addProblem _ _).apply ht hmark)
    · exact hnames.apply h hmark
  | loop place count body =>
    obtain ⟨t, hblk, rfl⟩ := within_eq_ok.mp h
    obtain ⟨t', hbody, rfl⟩ := within_eq_ok.mp hblk
    have hmark : t'.Marked := marked_of_declareInAll body hbody hs
    exact hmark
  | assign a | delay place length | pulses trains =>
    cases h
    exact hs.resolve_left nofun

theorem marked_of_declareInAll (ss : List Statement) {e e' : Environment} {u : PUnit}
    (h : declareInAll ss e = (.ok u, e')) (hss : anyAcquires ss = true ∨ e.Marked) : e'.Marked := by
  cases ss with
  | nil =>
    cases h
    exact hss.resolve_left nofun
  | cons s rest =>
    obtain ⟨v, t, hhead, h⟩ := bind_eq_ok.mp h
    rw [anyAcquires, Bool.or_eq_true] at hss
    refine marked_of_declareInAll rest h ?_
    rcases hss with (hs | hrest) | hmark
    · exact .inr (marked_of_declareIn s hhead (.inl hs))
    · exact .inl hrest
    · exact .inr (marked_of_declareIn s hhead (.inr hmark))

end

private theorem mem_keys_foldl_put {names : List String} {g : Generator} {gs : List (String × Generator)}
    {name : String} (h : name ∈ names) : name ∈ (names.foldl (fun gs name => put name g gs) gs).map (·.1) := by
  have hkeys : name ∈ (putAll (names.map fun n => (n, g)) gs).map (·.1) :=
    mem_keys_putAll.mpr (.inl (by simpa using h))
  rwa [putAll, foldl_map] at hkeys

/-- Once the declarations have been read, every output has its waveform and all needed values are
known; and if there is an acquisition, then there is a marker for it. -/
theorem sound_of_readDeclarations {block : Block} {e e' : Environment} {u : PUnit}
    (h : readDeclarations block e = (.ok u, e')) :
    e'.scheme.Sound ∧ (anyAcquires block = true → e'.scheme.kindOf markerName = some .marker) := by
  obtain ⟨_, t, hwithin, h⟩ := bind_eq_ok.mp h
  cases h
  obtain ⟨t', hblk, rfl⟩ := within_eq_ok.mp hwithin
  refine ⟨⟨fun name hname => ?_, ⟨_, rfl, fun name kind hkind path hpath => ?_⟩⟩, fun hacq => ?_⟩
  · refine mem_keys_foldl_put (mem_filterMap.mpr ⟨(name, .output), ?_, rfl⟩)
    exact mem_of_get? hname
  · exact mem_flatMap.mpr ⟨(name, kind), mem_of_get? hkind, hpath⟩
  · exact marked_of_declareInAll block hblk (.inl hacq)

/-! ### Values -/

theorem keeps_scheme_of_fixtures {α γ : Type} {view : Generator → γ} {act : Act Environment α}
    (h : Keeps (fixtures view) act) : Keeps scheme act := by
  intro e
  have houts := congrArg (fun x : Fixtures γ => x.outputs.map (·.1)) (h e)
  simp only [fixtures, map_map] at houts
  simp only [scheme, Scheme.mk.injEq]
  exact ⟨congrArg Fixtures.declared (h e), congrArg Fixtures.required (h e), houts⟩

theorem keeps_scheme_addProblem (message : String) (place : Nat) : Keeps scheme (addProblem message place) := by
  have hkeeps : Keeps (fixtures Generator.manner) (addProblem message place) := keeps_addProblem message place
  exact keeps_scheme_of_fixtures hkeeps

theorem keeps_scheme_within {α : Type} {act : Act Environment α} (h : Keeps scheme act)
    (frame : Frame) : Keeps scheme (within frame act) := by
  refine Keeps.bind (.modify fun e => ?_) fun _ => h.bind fun a =>
    Keeps.bind (.modify fun e => ?_) fun _ => .pure a
  · rfl
  · rfl

theorem keeps_assign (path : Path) (v : Value) : Keeps scheme (assign path v) := by
  unfold assign
  split
  · exact .fail _
  · rename_i name attributes
    refine .get_bind fun e => ?_
    cases e.kindOf name with
    | none => rfl
    | some kind =>
      cases hobj : objection kind attributes v with
      | some message => simp only [hobj]; rfl
      | none =>
        simp only [hobj]
        split
        · rfl
        · rfl

theorem keeps_assignAt (place : Nat) (path : Path) (v : Value) : Keeps scheme (assignAt place path v) := by
  refine (keeps_assign path v).attempt.bind fun outcome => ?_
  cases outcome with
  | ok _ => exact .pure _
  | error f =>
    dsimp only
    split
    · exact keeps_scheme_addProblem _ _
    · split
      · exact keeps_scheme_addProblem _ _
      · exact .fail _

theorem keeps_checkTarget (target : Target) : Keeps scheme (checkTarget target) := by
  cases target with
  | named name => exact .pure _
  | part place owner name =>
    refine keeps_scheme_within (.get_bind fun e => ?_) .assignment
    cases e.required with
    | none => rfl
    | some paths =>
      dsimp only
      split
      · exact keeps_scheme_addProblem _ _ e
      · rfl

theorem keeps_assignContent (a : Assignment) : Keeps scheme (assignContent a) := by
  refine (keeps_checkTarget a.target).bind fun _ => .get_bind fun e => ?_
  cases e.kindOf (a.target.path.headD "") with
  | none => exact keeps_scheme_addProblem _ _ e
  | some kind =>
    cases a.content with
    | value v => exact keeps_assignAt a.place _ v e
    | dictionary entries => exact Keeps.forM (fun entry _ => keeps_assignAt a.place _ entry.2) e

theorem keeps_assignHere (a : Assignment) : Keeps scheme (assignHere a) := by
  refine .get_bind fun e => ?_
  split
  · exact ((keeps_scheme_addProblem _ _).bind fun _ => keeps_assignContent a) e
  · exact keeps_assignContent a e

theorem assignInAll_eq_forM (ss : List Statement) : assignInAll ss = ss.forM assignIn := by
  induction ss with
  | nil => rw [assignInAll]; rfl
  | cons s rest ih => rw [assignInAll, ih]; rfl

theorem keeps_assignIn (s : Statement) : Keeps scheme (assignIn s) := by
  cases s with
  | assign a => exact keeps_assignHere a
  | declare place kind names =>
    refine .forM fun d _ => keeps_scheme_within ?_ .declaration
    cases d with
    | plain place name => exact .pure _
    | assigned a => exact keeps_assignHere a
  | loop place count body =>
    rw [assignIn, assignInAll_eq_forM]
    exact keeps_scheme_within (keeps_scheme_within (.forM fun s _ => keeps_assignIn s) .block) .loop
  | acquire place | delay place length | pulses trains => exact .pure _

theorem keeps_assignInAll (ss : List Statement) : Keeps scheme (assignInAll ss) := by
  rw [assignInAll_eq_forM]
  exact .forM fun s _ => keeps_assignIn s

end Environment

namespace Program

open Environment

/-- A program whose statements fit its variables, and whose outputs and needed values are known. -/
structure Fits (p : Program) : Prop where
  sound : p.env.scheme.Sound
  block : FitAll p.env.scheme p.block

theorem checked_eq_ok {stage : Act Environment PUnit} {e e' : Environment} {u : PUnit}
    (h : checked stage e = (.ok u, e')) : stage e = (.ok u, e') ∧ e'.problems = [] := by
  obtain ⟨_, t, hstage, h⟩ := bind_eq_ok.mp h
  rw [get_bind] at h
  split at h
  · cases h
  · rename_i hnone
    cases h
    exact ⟨hstage, by simpa using hnone⟩

end Program

end LabBench.Pulse
