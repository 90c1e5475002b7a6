import LabBench.Proofs.Entries
import LabBench.Proofs.Frame
import LabBench.Pulse.Program
import Mathlib.Data.List.Forall2
/-!
# Pulse programs side by side

The commands of a program can be carried out on different waveforms: on waveforms whose points are
kept, or on waveforms whose points are only counted. All commands do the same to both, apart from
those that look at the waveforms themselves: the marker of an acquisition, and the zeros that make
the waveforms equally long. This file compares two ways to carry out a program that differ there.
-/

namespace LabBench

open Act Entries List

/-! ### Waveforms under construction -/

namespace Generator

/-- More points, if so many still fit. -/
def grow (additional : Int) (points : Array Float) : Act Generator PUnit := do
  checkLength additional
  append points

def grown (points : Array Float) (g : Generator) : Generator :=
  { g with
    length := g.length + points.size, wave := if g.rehearsal then g.wave else g.wave ++ points }

variable {additional : Int}

theorem checkLength_eq_ok {g g' : Generator} {u : PUnit} :
    checkLength additional g = (.ok u, g') ↔ g.length + additional ≤ g.maxLength ∧ g' = g := by
  obtain ⟨message, hchk⟩ : ∃ message, checkLength additional g =
      (if g.length + additional > g.maxLength then Act.refuse .badValue message else pure ⟨⟩ :
        Act Generator PUnit) g := ⟨_, rfl⟩
  rw [hchk]
  split
  · rename_i hlong
    constructor
    · intro h
      cases h
    · rintro ⟨hfits, -⟩
      omega
  · rename_i hfits
    rw [pure_eq_ok]
    constructor
    · rintro ⟨-, rfl⟩
      exact ⟨by omega, rfl⟩
    · rintro ⟨-, rfl⟩
      exact ⟨rfl, rfl⟩

theorem grow_eq_ok {points : Array Float} {g g' : Generator} {u : PUnit} : grow additional points g = (.ok u, g') ↔
      g.length + additional ≤ g.maxLength ∧ g' = grown points g := by
  unfold grow
  rw [bind_eq_ok]
  constructor
  · rintro ⟨_, t, hchk, happ⟩
    obtain ⟨hfits, rfl⟩ := checkLength_eq_ok.mp hchk
    cases happ
    exact ⟨hfits, rfl⟩
  · rintro ⟨hfits, rfl⟩
    exact ⟨⟨⟩, g, checkLength_eq_ok.mpr ⟨hfits, rfl⟩, rfl⟩

/-- A relation between waveforms under construction that lasts while both of them grow by as many
points. -/
structure Tracks (G : Generator → Generator → Prop) : Prop where
  frequency : ∀ {g g'}, G g g' → g.frequency = g'.frequency
  fits : ∀ {g g'}, G g g' → ∀ {additional : Int}, g'.length + additional ≤ g'.maxLength →
    g.length + additional ≤ g.maxLength
  grown : ∀ {g g'}, G g g' → ∀ {points points' : Array Float}, points.size = points'.size →
    G (grown points g) (grown points' g')

namespace Tracks

variable {G : Generator → Generator → Prop}

section

variable (hG : Tracks G)

include hG

theorem covers_grow (additional : Int) {points points' : Array Float}
    (hsize : points.size = points'.size) : Covers G (grow additional points) (grow additional points') := by
  refine covers_iff.mpr fun g g' hg u t' h => ?_
  obtain ⟨hfits, rfl⟩ := grow_eq_ok.mp h
  exact ⟨_, grow_eq_ok.mpr ⟨hG.fits hg hfits, rfl⟩, hG.grown hg hsize⟩

theorem covers_setNext (point point' : Float) : Covers G (setNext point) (setNext point') :=
  hG.covers_grow 1 rfl

theorem samples_eq {g g' : Generator} (hg : G g g') (time : Value) : g.samples time = g'.samples time := by
  unfold samples
  rw [hG.frequency hg]

theorem covers_delay (time : Value) (lessPoints : Int) : Covers G (delay time lessPoints) (delay time lessPoints) := by
  refine .get_bind fun g g' hg => ?_
  rw [hG.samples_eq hg]
  exact (Mirrors.lift nofun _).bind fun count => hG.covers_grow (count - lessPoints) (by simp)

theorem covers_square (amplitude : Float) (time : Value) :
    Covers G (square amplitude time) (square amplitude time) := by
  refine .get_bind fun g g' _ => ?_
  refine (hG.covers_setNext amplitude amplitude).bind fun _ => ?_
  exact (hG.covers_delay time 1).bind fun _ => hG.covers_setNext _ _

theorem covers_pulse (points : Array Float) (amplitude time : Value) :
    Covers G (pulse points amplitude time) (pulse points amplitude time) := by
  refine .get_bind fun g g' hg => ?_
  have hrescale : g.rescale points amplitude time = g'.rescale points amplitude time := by
    unfold rescale
    simp only [hG.samples_eq hg]
  rw [hrescale]
  exact (Mirrors.lift nofun _).bind fun data => hG.covers_grow data.size rfl

theorem covers_pause (time : Value) : Covers G (Pulse.Environment.pause time) (Pulse.Environment.pause time) :=
  (hG.covers_setNext _ _).bind fun _ => hG.covers_delay time 1

end

end Tracks

/-- What commands do to a waveform, apart from the marker of an acquisition. -/
inductive Growth : Act Generator PUnit → Prop
  | pure : Growth (pure ⟨⟩)
  | pause (time : Value) : Growth (Pulse.Environment.pause time)
  | square (amplitude : Float) (time : Value) : Growth (square amplitude time)
  | pulse (points : Array Float) (amplitude time : Value) : Growth (pulse points amplitude time)

theorem Growth.covers {act : Act Generator PUnit} (h : Growth act) {G : Generator → Generator → Prop} (hG : Tracks G) :
    Covers G act act := by
  cases h with
  | pure => exact .pure _
  | pause time => exact hG.covers_pause time
  | square amplitude time => exact hG.covers_square amplitude time
  | pulse points amplitude time => exact hG.covers_pulse points amplitude time

end Generator

/-! ### Environments -/

namespace Pulse.Environment

open Generator (Tracks)

variable {G : Generator → Generator → Prop} {base : Environment} {gs gs' : List (String × Generator)} {u : PUnit}
  {rehearsal : Bool} {block : Block} {act act' : Act Generator PUnit} {name : String}

/-- Waveforms of the same names that are related one by one. -/
abbrev Matched (G : Generator → Generator → Prop) : List (String × Generator) → List (String × Generator) → Prop :=
  Forall₂ fun a b => a.1 = b.1 ∧ G a.2 b.2

theorem Matched.exists_right (h : Matched G gs gs')
    {a : String × Generator} (ha : a ∈ gs) : ∃ b ∈ gs', a.1 = b.1 ∧ G a.2 b.2 := by
  induction h with
  | nil => cases ha
  | @cons x y xs ys hhead _ ih =>
    rcases mem_cons.mp ha with rfl | ha
    · exact ⟨y, mem_cons_self, hhead⟩
    · obtain ⟨b, hb, hab⟩ := ih ha
      exact ⟨b, mem_cons_of_mem y hb, hab⟩

theorem Matched.flip (h : Matched G gs gs') : Matched (flip G) gs' gs :=
  Forall₂.flip (h.imp fun _ _ hab => ⟨hab.1.symm, hab.2⟩)

/-- Two environments of one program that differ in their waveforms only, which are related one by
one. -/
structure Alike (G : Generator → Generator → Prop) (base e e' : Environment) : Prop where
  rest : ∃ rehearsal generators, e' = { e with rehearsal, generators }
  generators : Matched G e.generators e'.generators
  names : e.generators.map (·.1) = base.generators.map (·.1)
  values : e.values = base.values

/-- What does not concern the waveforms is done to both environments alike. -/
theorem Alike.update {e e' : Environment} (h : Alike G base e e') (stack : List Frame)
    (problems : List (String × Option Location)) (missingShapes : List Value) :
    Alike G base { e with stack, problems, missingShapes } { e' with stack, problems, missingShapes } := by
  obtain ⟨⟨rehearsal, generators, rfl⟩, hgens, hnames, hvals⟩ := h
  exact ⟨⟨rehearsal, generators, rfl⟩, hgens, hnames, hvals⟩

private theorem get?_matched (h : Matched G gs gs') {g' : Generator}
    (hget : get? name gs' = some g') : ∃ g, get? name gs = some g ∧ G g g' := by
  induction h with
  | nil => cases hget
  | @cons a b as bs hhead _ ih =>
    rw [get?] at hget ⊢
    rw [hhead.1]
    by_cases hname : b.1 == name
    · rw [if_pos hname] at hget ⊢
      cases hget
      exact ⟨a.2, rfl, hhead.2⟩
    · rw [if_neg hname] at hget ⊢
      exact ih hget

private theorem put_matched (h : Matched G gs gs') (name : String) {g g' : Generator} (hg : G g g') :
    Matched G (put name g gs) (put name g' gs') := by
  induction h with
  | nil => exact .cons ⟨rfl, hg⟩ .nil
  | @cons a b as bs hhead htail ih =>
    rw [put, put, hhead.1]
    split
    · exact .cons ⟨rfl, hg⟩ htail
    · exact .cons ⟨rfl, hhead.2⟩ ih

theorem onOutput_of_none {e : Environment} {act : Act Generator PUnit}
    (h : Entries.get? name e.generators = none) : onOutput name act e = (.error (.plain .missingKey), e) := by
  rw [onOutput, h]

theorem onOutput_of_some {e : Environment} {act : Act Generator PUnit} {g g' : Generator}
    {r : Outcome PUnit} (h : Entries.get? name e.generators = some g) (hact : act g = (r, g')) :
    onOutput name act e = (r, { e with generators := Entries.put name g' e.generators }) := by
  rw [onOutput, h]
  simp only [hact]

theorem onAll_of_eq {e : Environment} {act : Act Generator PUnit} {r : Outcome PUnit}
    (h : onEach act e.generators = (r, gs)) : onAll act e = (r, { e with generators := gs }) := by
  rw [onAll, h]

theorem covers_onOutput (name : String) (h : Covers G act act') :
    Covers (Alike G base) (onOutput name act) (onOutput name act') := by
  intro e e' he
  obtain ⟨⟨rehearsal, generators, rfl⟩, hgens, hnames, hvals⟩ := he
  cases hget' : get? name generators with
  | none => exact .inr ⟨_, _, onOutput_of_none hget', nofun⟩
  | some g' =>
    obtain ⟨g, hget, hg⟩ := get?_matched hgens hget'
    rcases h g g' hg with ⟨u, k, k', hact, hact', hk⟩ | ⟨f', k', hact', -⟩
    · refine .inl ⟨u, _, _, onOutput_of_some hget hact, onOutput_of_some hget' hact', ?_⟩
      have hmem : name ∈ e.generators.map (·.1) := mem_map_of_mem (mem_of_get? hget)
      exact ⟨⟨rehearsal, _, rfl⟩, put_matched hgens name hk, (map_fst_put_of_mem hmem).trans hnames, hvals⟩
    · exact .inr ⟨f', _, onOutput_of_some hget' hact', nofun⟩

private theorem onEach_matched (h : Covers G act act')
    {ks' : List (String × Generator)} (hgs : Matched G gs gs') (hok : onEach act' gs' = (.ok u, ks')) :
    ∃ ks, onEach act gs = (.ok u, ks) ∧ Matched G ks ks' ∧ ks.map (·.1) = gs.map (·.1) := by
  induction hgs generalizing ks' with
  | nil =>
    cases hok
    exact ⟨[], rfl, .nil, rfl⟩
  | @cons a b as bs hhead _ ih =>
    rw [onEach] at hok ⊢
    rcases h a.2 b.2 hhead.2 with ⟨_, k, k', hact, hact', hk⟩ | ⟨f', k', hact', -⟩
    · rcases hrest' : onEach act' bs with ⟨r, rest'⟩
      rw [hact', hrest'] at hok
      cases hok
      obtain ⟨ks, hrest, hks, hnames⟩ := ih hrest'
      refine ⟨(a.1, k) :: ks, by rw [hact, hrest], .cons ⟨hhead.1, hk⟩ hks, ?_⟩
      rw [map_cons, map_cons, hnames]
    · rw [hact'] at hok
      cases hok

theorem covers_onAll (h : Covers G act act') : Covers (Alike G base) (onAll act) (onAll act') := by
  refine covers_iff.mpr fun e e' he u t' hok => ?_
  obtain ⟨⟨rehearsal, generators, rfl⟩, hgens, hnames, hvals⟩ := he
  rcases hrest' : onEach act' generators with ⟨r, ks'⟩
  rw [onAll_of_eq hrest'] at hok
  cases hok
  obtain ⟨ks, hrest, hks, hsame⟩ := onEach_matched h hgens hrest'
  exact ⟨_, onAll_of_eq hrest, ⟨rehearsal, _, rfl⟩, hks, hsame.trans hnames, hvals⟩

/-! ### Commands -/

mutual

/-- A command is carried out, where the marker is switched on and the waveforms are made equally long
in given ways. -/
def playStatementWith (acquire level : Act Environment PUnit) : Statement → Act Environment PUnit
  | .acquire _ => acquire
  | .pulses trains => do
    within .pulses (trains.forM playTrain)
    level
  | .loop _ count body => do
    let n ← Act.lift (repetitions (← get) count)
    repeated (within .loop (within .block (playAllWith acquire level body))) n
  | .delay place length => playStatement (.delay place length)
  | .assign _ | .declare .. => return

/-- Commands are carried out one after the other in these ways. -/
def playAllWith (acquire level : Act Environment PUnit) : List Statement → Act Environment PUnit
  | [] => return
  | s :: rest => do
    playStatementWith acquire level s
    playAllWith acquire level rest

end

mutual

theorem playStatementWith_eq (s : Statement) : playStatementWith playAcquisition level s = playStatement s := by
  cases s with
  | loop place count body =>
    rw [playStatementWith, playStatement, playAllWith_eq body]
  | pulses trains | acquire place => rw [playStatementWith, playStatement]
  | delay place length => rw [playStatementWith]
  | assign a | declare place kind names => rfl

theorem playAllWith_eq (ss : List Statement) : playAllWith playAcquisition level ss = playAll ss := by
  cases ss with
  | nil => rw [playAllWith, playAll]
  | cons s rest => rw [playAllWith, playAll, playStatementWith_eq s, playAllWith_eq rest]

end

/-! ### Equal lengths -/

/-- Zeros up to a number of points. -/
def padTo (size : Generator → Nat) (longest : Nat) : Act Generator PUnit := do
  let g ← get
  if size g < longest then Generator.append (Array.replicate (longest - size g) 0.0)

def longestBy (size : Generator → Nat) (generators : List (String × Generator)) : Nat :=
  generators.foldl (fun n e => max n (size e.2)) 0

/-- The waveforms are made equally long by zeros, where their sizes are taken in a given way. -/
def levelBy (size : Generator → Nat) : Act Environment PUnit := do
  let longest := longestBy size (← get).generators
  onAll (padTo size longest)

theorem level_eq : level = levelBy (·.wave.size) :=
  rfl

@[simp] theorem grown_empty (g : Generator) : g.grown #[] = g := by
  simp [Generator.grown]

theorem padTo_eq (size : Generator → Nat) (longest : Nat) (g : Generator) : padTo size longest g =
      (.ok ⟨⟩, g.grown (Array.replicate (longest - size g) 0.0)) := by
  change (if size g < longest then Generator.append _ else pure ⟨⟩ : Act Generator PUnit) g = _
  split
  · rfl
  · rename_i hlong
    rw [Nat.sub_eq_zero_of_le (Nat.le_of_not_lt hlong), Array.replicate_zero, grown_empty]
    rfl

/-- The waveforms after they have been made equally long. -/
def leveled (size : Generator → Nat) (generators : List (String × Generator)) : List (String × Generator) :=
  generators.map fun e =>
    (e.1, e.2.grown (Array.replicate (longestBy size generators - size e.2) 0.0))

theorem levelBy_eq (size : Generator → Nat) (e : Environment) :
    levelBy size e = (.ok ⟨⟩, { e with generators := leveled size e.generators }) := by
  have heach (longest : Nat) (gs : List (String × Generator)) : onEach (padTo size longest) gs =
      (.ok ⟨⟩, gs.map fun e => (e.1, e.2.grown (Array.replicate (longest - size e.2) 0.0))) := by
    induction gs with
    | nil => rfl
    | cons g gs ih => rw [onEach, padTo_eq, ih, map_cons]
  change onAll (padTo size (longestBy size e.generators)) e = _
  rw [onAll, heach]
  rfl

theorem longestBy_le_iff {size : Generator → Nat} {bound : Nat} :
    longestBy size gs ≤ bound ↔ ∀ g ∈ gs, size g.2 ≤ bound := by
  rw [longestBy, ← foldl_map, foldl_max, Nat.zero_max]
  cases hmax : (gs.map fun e => size e.2).max? with
  | none => simp [map_eq_nil_iff.mp (max?_eq_none_iff.mp hmax)]
  | some n => exact (max?_le_iff hmax).trans forall_mem_map

theorem longestBy_eq_of_matched {size size' : Generator → Nat}
    (h : Matched G gs gs') (hsize : ∀ {g g'}, G g g' → size g = size' g') :
    longestBy size gs = longestBy size' gs' := by
  unfold longestBy
  generalize 0 = n
  induction h generalizing n with
  | nil => rfl
  | cons hhead _ ih => rw [foldl_cons, foldl_cons, hsize hhead.2, ih]

theorem covers_levelBy {size size' : Generator → Nat} (h : ∀ {gs gs' : List (String × Generator)}, Matched G gs gs' →
      gs.map (·.1) = base.generators.map (·.1) → Matched G (leveled size gs) (leveled size' gs')) :
    Covers (Alike G base) (levelBy size) (levelBy size') := by
  intro e e' he
  obtain ⟨⟨rehearsal, generators, rfl⟩, hgens, hnames, hvals⟩ := he
  refine .inl ⟨⟨⟩, _, _, levelBy_eq size e, levelBy_eq size' _, ⟨rehearsal, _, rfl⟩, h hgens hnames, ?_, hvals⟩
  rw [leveled, map_map]
  exact hnames

/-! ### Markers -/

/-- The marker of the acquisition is switched on in a given way. -/
def acquireBy (mark : Value → Act Generator PUnit) : Act Environment PUnit := do
  let env ← get
  let number ← Act.lift (env.valueAt [markerName, "marker_num"])
  let output ← Act.lift (env.valueAt [markerName, "output"])
  if !output.isSettled then .fail (.plain .badType)
  match output with
  | .text name => onOutput name (mark number)
  | _ => .fail (.plain .missingKey)

theorem playAcquisition_eq : playAcquisition = acquireBy fun number => Generator.mark number (.flag true) :=
  rfl

/-! ### Whole programs -/

/-- The environment in which the commands of a program are carried out, with fresh waveforms. -/
def started (rehearsal : Bool) (e : Environment) : Environment :=
  { e with
    rehearsal
    missingShapes := []
    problems := []
    generators := e.generators.map fun g => (g.1, Generator.fresh e.frequency rehearsal) }

/-- The commands of a program are carried out in given ways, if no values are missing. -/
def performWith (acquire level : Act Environment PUnit) (rehearsal : Bool) (block : Block) :
    Act Environment PUnit := do
  if !(← Act.lift (← get).missing).isEmpty then .fail (.plain .badValue)
  modify (started rehearsal)
  within .block (playAllWith acquire level block)
  if !(← get).problems.isEmpty then .fail (.plain .pulse)

private theorem report_eq_ok (fault : Environment → Fault) {s t : Environment} : (do
      let env ← get
      if !env.problems.isEmpty then .fail (fault env) : Act Environment PUnit) s = (.ok u, t) ↔
      s.problems = [] ∧ s = t := by
  change (if !s.problems.isEmpty then _ else pure ⟨⟩ : Act Environment PUnit) s = _ ↔ _
  cases hprob : s.problems with
  | nil => exact pure_eq_ok.trans (by simp)
  | cons problem problems =>
    constructor
    · intro h
      cases h
    · rintro ⟨h, -⟩
      cases h

theorem performWith_eq_ok {acquire level : Act Environment PUnit} {e t : Environment} :
    performWith acquire level rehearsal block e = (.ok u, t) ↔ e.missing = .ok [] ∧
      within .block (playAllWith acquire level block) (started rehearsal e) = (.ok ⟨⟩, t) ∧ t.problems = [] := by
  change (Act.lift e.missing >>= _) e = _ ↔ _
  rw [lift_bind_eq_ok]
  constructor
  · rintro ⟨_ | ⟨path, paths⟩, hmiss, h⟩
    · obtain ⟨_, s, hs, h⟩ := bind_eq_ok.mp h
      cases hs
      obtain ⟨_, s, hplay, h⟩ := bind_eq_ok.mp h
      obtain ⟨hprob, rfl⟩ := (report_eq_ok _).mp h
      exact ⟨hmiss, hplay, hprob⟩
    · cases h
  · rintro ⟨hmiss, hplay, hprob⟩
    refine ⟨[], hmiss, bind_eq_ok.mpr ⟨⟨⟩, started rehearsal e, rfl, ?_⟩⟩
    exact bind_eq_ok.mpr ⟨⟨⟩, t, hplay, (report_eq_ok _).mpr ⟨hprob, rfl⟩⟩

theorem perform_eq_ok {e t : Environment} : Program.perform block rehearsal e = (.ok u, t) ↔
      performWith (acquireBy fun number => Generator.mark number (.flag true))
        (levelBy (·.wave.size)) rehearsal block e = (.ok u, t) := by
  rw [← playAcquisition_eq, ← level_eq, performWith_eq_ok, playAllWith_eq]
  have hplay {s : Environment} : play block { e with rehearsal, missingShapes := [], problems := [] } =
      (.ok ⟨⟩, s) ↔ e.missing = .ok [] ∧ within .block (playAll block) (started rehearsal e) = (.ok ⟨⟩, s) := by
    change (Act.lift e.missing >>= _) _ = _ ↔ _
    rw [lift_bind_eq_ok]
    constructor
    · rintro ⟨_ | ⟨path, paths⟩, hmiss, h⟩
      · exact ⟨hmiss, h⟩
      · cases h
    · rintro ⟨hmiss, h⟩
      exact ⟨[], hmiss, h⟩
  change (play block >>= _) { e with rehearsal, missingShapes := [], problems := [] } = _ ↔ _
  rw [bind_eq_ok]
  constructor
  · rintro ⟨_, s, hs, h⟩
    obtain ⟨hprob, rfl⟩ := (report_eq_ok _).mp h
    obtain ⟨hmiss, hs⟩ := hplay.mp hs
    exact ⟨hmiss, hs, hprob⟩
  · rintro ⟨hmiss, hs, hprob⟩
    exact ⟨⟨⟩, t, hplay.mpr ⟨hmiss, hs⟩, (report_eq_ok _).mpr ⟨hprob, rfl⟩⟩

end Pulse.Environment

end LabBench
