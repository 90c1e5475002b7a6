import LabBench.Proofs.Pulse.Rearrangement
import LabBench.Proofs.Pulse.Acquisition
/-!
# Delays that are split

A delay puts zeros on all waveforms, as many as there are samples in its length. It always starts with one zero, so a
delay of no samples is as long as a delay of one. Therefore two delays, one after the other, can stand for a single one
if it has as many samples as both together, where a part without samples counts as one sample.

## Main results

* `ofSource_splits_delay`
-/

namespace LabBench

open List

/-! ### Pulse programs with a gap

A context is a program with a gap, at the top level or in loops, which can be filled with commands.
-/

namespace Pulse

open Environment List

/-! ### Delays -/

def Statement.isDelay : Statement → Bool
  | .delay .. => true
  | .assign _ | .declare .. | .acquire _ | .pulses _ | .loop .. => false

theorem exists_of_isDelay {s : Statement} (h : s.isDelay = true) : ∃ place length, s = .delay place length := by
  cases s with
  | delay place length => exact ⟨place, length, rfl⟩
  | _ => cases h

section Delays

variable {part : List Statement} (h : ∀ s ∈ part, s.isDelay = true)
include h

theorem flatMap_of_isDelay {α : Type} {f : Statement → List α} (hf : ∀ place length, f (.delay place length) = []) :
    part.flatMap f = [] := by
  rw [flatMap_eq_nil_iff]
  intro s hs
  obtain ⟨place, length, rfl⟩ := exists_of_isDelay (h s hs)
  exact hf place length

theorem countP_of_isDelay {q : Statement → Bool} (hq : ∀ place length, q (.delay place length) = false) :
    part.countP q = 0 := by
  rw [countP_eq_zero]
  intro s hs
  obtain ⟨place, length, rfl⟩ := exists_of_isDelay (h s hs)
  rw [hq]
  exact Bool.false_ne_true

theorem allInside_of_isDelay : allInside part = part := by
  have hin : part.flatMap (fun s => s :: s.inside) = part.flatMap fun s => [s] := by
    refine flatMap_congr fun s hs => ?_
    obtain ⟨place, length, rfl⟩ := exists_of_isDelay (h s hs)
    rw [Statement.inside]
  rw [allInside_eq_flatMap, hin, flatMap_singleton']

end Delays

theorem allInside_append (ss rest : List Statement) : allInside (ss ++ rest) = allInside ss ++ allInside rest := by
  rw [allInside_eq_flatMap, allInside_eq_flatMap, allInside_eq_flatMap, flatMap_append]

/-! ### Contexts -/

inductive Context where
  | here (rest : Block)
  | later (s : Statement) (c : Context)
  | inside (place : Nat) (count : Count) (c : Context) (rest : Block)

namespace Context

def fill (part : List Statement) : Context → Block
  | here rest => part ++ rest
  | later s c => s :: c.fill part
  | inside place count c rest => .loop place count (c.fill part) :: rest

/-! ### Rules -/

variable {part part' : List Statement}

/-- What is collected from statements, but not from loops, is the same with other commands in the gap. -/
theorem flatMap_fill {α : Type} {f : Statement → List α} (hloop : ∀ place count body, f (.loop place count body) = [])
    (hpart : part'.flatMap f = part.flatMap f) (c : Context) : (c.fill part').flatMap f = (c.fill part).flatMap f := by
  induction c with
  | here rest => rw [fill, fill, flatMap_append, flatMap_append, hpart]
  | later s c ih => rw [fill, fill, flatMap_cons, flatMap_cons, ih]
  | inside place count c rest _ => rw [fill, fill, flatMap_cons, flatMap_cons, hloop, hloop]

/-- What holds of all statements, and does not depend on the bodies of loops, still does. -/
theorem forall_allInside_fill {P : Statement → Prop}
    (hloop : ∀ place count body body', P (.loop place count body) → P (.loop place count body'))
    (hpart : ∀ t ∈ allInside part', P t) {c : Context} (hc : ∀ t ∈ allInside (c.fill part), P t) :
    ∀ t ∈ allInside (c.fill part'), P t := by
  induction c with
  | here rest =>
    rw [fill, allInside_append, forall_mem_append] at hc ⊢
    exact ⟨hpart, hc.2⟩
  | later s c ih =>
    rw [fill, allInside, forall_mem_cons, forall_mem_append] at hc ⊢
    exact ⟨hc.1, hc.2.1, ih hc.2.2⟩
  | inside place count c rest ih =>
    rw [fill, allInside, Statement.inside, forall_mem_cons, forall_mem_append] at hc ⊢
    exact ⟨hloop _ _ _ _ hc.1, ih hc.2.1, hc.2.2⟩

theorem countP_allInside_fill {q : Statement → Bool}
    (hloop : ∀ place count body body', q (.loop place count body) = q (.loop place count body'))
    (hpart : (allInside part').countP q = (allInside part).countP q) (c : Context) :
    (allInside (c.fill part')).countP q = (allInside (c.fill part)).countP q := by
  induction c with
  | here rest =>
    rw [fill, fill, allInside_append, allInside_append, countP_append, countP_append, hpart]
  | later s c ih => simp only [fill, allInside, countP_cons, countP_append, ih]
  | inside place count c rest ih =>
    simp only [fill, allInside, Statement.inside, countP_cons, countP_append, ih,
      hloop place count (c.fill part') (c.fill part)]

section Delays

variable (hpart : ∀ s ∈ part, s.isDelay = true) (hpart' : ∀ s ∈ part', s.isDelay = true) (c : Context)
include hpart hpart'

theorem announcements_fill : (c.fill part').announcements = (c.fill part).announcements := by
  refine flatMap_fill (fun _ _ _ => rfl) ?_ c
  rw [flatMap_of_isDelay hpart fun _ _ => rfl, flatMap_of_isDelay hpart' fun _ _ => rfl]

theorem assignments_fill : (c.fill part').assignments = (c.fill part).assignments := by
  refine flatMap_fill (fun _ _ _ => rfl) ?_ c
  rw [flatMap_of_isDelay hpart fun _ _ => rfl, flatMap_of_isDelay hpart' fun _ _ => rfl]

theorem kinds_fill : (c.fill part').kinds = (c.fill part).kinds := by
  rw [Block.kinds, announcements_fill hpart hpart', Block.kinds]

theorem needed_fill : (c.fill part').needed = (c.fill part).needed := by
  rw [Block.needed, kinds_fill hpart hpart', Block.needed]

theorem outputs_fill : (c.fill part').outputs = (c.fill part).outputs := by
  rw [Block.outputs, kinds_fill hpart hpart', Block.outputs]

theorem settings_fill : (c.fill part').settings = (c.fill part).settings := by
  rw [Block.settings, assignments_fill hpart hpart', Block.settings]

variable {c}

theorem orderly_fill {σ : Scheme} (h : Orderly σ (c.fill part)) (hfits : ∀ s ∈ part', s.FitsAlone σ) :
    Orderly σ (c.fill part') := by
  refine ⟨?_, ?_, ?_⟩
  · have hin := h.inside
    clear h
    induction c with
    | here rest =>
      rw [fill, forall_mem_append] at hin ⊢
      refine ⟨fun s hs => ?_, hin.2⟩
      obtain ⟨place, length, rfl⟩ := exists_of_isDelay (hpart' s hs)
      rw [Statement.inside]
      exact fun t ht => nomatch ht
    | later s c ih =>
      rw [fill, forall_mem_cons] at hin ⊢
      exact ⟨hin.1, ih hin.2⟩
    | inside place count c rest _ =>
      rw [fill, forall_mem_cons, Statement.inside] at hin ⊢
      refine ⟨forall_allInside_fill (fun _ _ _ _ => id) ?_ hin.1, hin.2⟩
      rw [allInside_of_isDelay hpart']
      intro s hs
      obtain ⟨place, length, rfl⟩ := exists_of_isDelay (hpart' s hs)
      exact ⟨rfl, rfl⟩
  · refine forall_allInside_fill (fun _ _ _ _ => id) ?_ h.fits
    rw [allInside_of_isDelay hpart']
    exact hfits
  · rw [countP_allInside_fill (fun _ _ _ _ => rfl) ?_ c]
    · exact h.acquisition
    · rw [allInside_of_isDelay hpart, allInside_of_isDelay hpart', countP_of_isDelay hpart fun _ _ => rfl,
        countP_of_isDelay hpart' fun _ _ => rfl]

theorem admissible_fill (h : (c.fill part).Admissible) (hfits : ∀ s ∈ part', s.FitsAlone (c.fill part).scheme) :
    (c.fill part').Admissible := by
  have hscheme : (c.fill part').scheme = (c.fill part).scheme := by
    rw [Block.scheme, kinds_fill hpart hpart', needed_fill hpart hpart', outputs_fill hpart hpart', Block.scheme]
  refine ⟨?_, ?_, ?_⟩
  · rw [announcements_fill hpart hpart']
    exact h.announced
  · rw [kinds_fill hpart hpart', needed_fill hpart hpart', assignments_fill hpart hpart']
    exact h.consistent
  · rw [hscheme]
    exact orderly_fill hpart hpart' h.orderly hfits

end Delays

end Context

/-! ### What commands leave alone -/

namespace Environment

open Act
open Generator (manner)

/-- The values and the frequency of all waveforms are known. -/
structure Knows (values : List (Path × Value)) (frequency : Value) (e : Environment) : Prop where
  values : e.values = values
  frequency : ∀ g ∈ e.generators, g.2.frequency = frequency

variable {values : List (Path × Value)} {frequency : Value}

theorem knows_started (rehearsal : Bool) (e : Environment) : Knows e.values e.frequency (started rehearsal e) := by
  refine ⟨rfl, fun g hg => ?_⟩
  obtain ⟨_, _, rfl⟩ := mem_map.mp hg
  rfl

theorem preserves_knows {act : Act Environment PUnit} (h : Keeps (fixtures manner) act) :
    Preserves (Knows values frequency) act := by
  intro e he
  have hview := h e
  refine ⟨(congrArg Fixtures.values hview).trans he.values, fun g hg => ?_⟩
  obtain ⟨g₀, hg₀, hmanner⟩ := exists_of_fixtures hview hg
  exact (congrArg Prod.fst hmanner).trans (he.frequency g₀ hg₀)

/-- One environment, in which values and frequencies are known. -/
def Same (values : List (Path × Value)) (frequency : Value) (e e' : Environment) : Prop :=
  e = e' ∧ Knows values frequency e

/-- Two computations that do the same, or both end in a fault, if values and frequencies are known. -/
abbrev MirrorsSame (values : List (Path × Value)) (frequency : Value) (act act' : Act Environment PUnit) : Prop :=
  Mirrors (Same values frequency) (some fun _ _ => True) act act'

theorem mirrors_same {act : Act Environment PUnit} (h : Preserves (Knows values frequency) act) :
    MirrorsSame values frequency act act := by
  rintro e _ ⟨rfl, he⟩
  have hafter := h e he
  rcases hact : act e with ⟨f | u, t⟩
  · exact .inr ⟨f, t, rfl, by rintro _ ⟨⟩; exact ⟨f, t, rfl, trivial⟩⟩
  · rw [hact] at hafter
    exact .inl ⟨u, t, t, rfl, rfl, rfl, hafter⟩

theorem mirrors_same_playAll (ss : List Statement) : MirrorsSame values frequency (playAll ss) (playAll ss) :=
  mirrors_same (preserves_knows (keeps_playAll ss))

theorem mirrors_same_within {act act' : Act Environment PUnit} (h : MirrorsSame values frequency act act')
    (frame : Frame) : MirrorsSame values frequency (within frame act) (within frame act') := by
  have hstack {e e' : Environment} (he : Same values frequency e e') (f : List Frame → List Frame) :
      Same values frequency { e with stack := f e.stack } { e' with stack := f e'.stack } := by
    obtain ⟨rfl, he⟩ := he
    exact ⟨rfl, he.values, he.frequency⟩
  exact (Mirrors.modify fun _ _ he => hstack he _).bind fun _ => h.bind fun a =>
    (Mirrors.modify fun _ _ he => hstack he _).bind fun _ => .pure a

theorem playAll_append_eq (ss rest : List Statement) : playAll (ss ++ rest) = playAll ss >>= fun _ => playAll rest :=
  funext (playAll_append ss rest)

end Environment

namespace Context

open Act

theorem mirrors_fill {values : List (Path × Value)} {frequency : Value} {part part' : List Statement}
    (h : MirrorsSame values frequency (playAll part) (playAll part')) (c : Context) :
    MirrorsSame values frequency (playAll (c.fill part)) (playAll (c.fill part')) := by
  induction c with
  | here rest =>
    rw [fill, fill, playAll_append_eq, playAll_append_eq]
    exact h.bind fun _ => mirrors_same_playAll rest
  | later s c ih =>
    rw [fill, fill, playAll, playAll]
    exact (mirrors_same (preserves_knows (keeps_playStatement s))).bind fun _ => ih
  | inside place count c rest ih =>
    rw [fill, fill, playAll, playAll, playStatement, playStatement]
    refine (Mirrors.get_bind fun e e' he => ?_).bind fun _ => mirrors_same_playAll rest
    obtain ⟨rfl, -⟩ := he
    refine (Mirrors.lift (by rintro _ ⟨⟩ _ _ _ _; trivial) _).bind fun n => ?_
    exact mirrors_repeated (mirrors_same_within (mirrors_same_within ih .block) .loop) n

end Context

end Pulse

theorem Outcome.exists_of_any {α : Type} {x : Outcome α} {good : α → Bool} (h : x.toOption.any good = true) :
    ∃ a, x = .ok a ∧ good a = true := by
  cases x with
  | error f => cases h
  | ok a => exact ⟨a, rfl, h⟩

theorem Outcome.eq_ok_of_toOption {α : Type} {x : Outcome α} {a : α} (h : x.toOption = some a) : x = .ok a := by
  cases x with
  | error f => cases h
  | ok b => exact congrArg Except.ok (Option.some.inj h)

namespace Pulse

open Block

/-- The number of points that a delay adds. The first point is there in any case. -/
def pausePoints (count : Int) : Nat :=
  (max 1 count).toNat

/-! ### What a delay does -/

namespace Environment

open Act
open Generator (grown grow grow_eq_ok grown_grown manner)

def timeOf (e : Environment) : Length → Outcome Value
  | .named name => e.valueAt [name]
  | .literal q => .ok (.quantity q)

/-- The number of samples in the length of a delay. -/
def samplesOf (e : Environment) (length : Length) : Outcome Int := do
  let time ← e.timeOf length
  (Generator.fresh e.frequency false).samples time

def lengthened (count : Nat) (e : Environment) : Environment :=
  { e with generators := e.generators.map fun g => (g.1, g.2.grown (Array.replicate count 0.0)) }

theorem lengthened_lengthened (m n : Nat) (e : Environment) : (e.lengthened m).lengthened n = e.lengthened (m + n) := by
  simp [lengthened, grown_grown, Function.comp_def]

theorem playStatement_delay (place : Nat) (length : Length) (e : Environment) :
    playStatement (.delay place length) e = (lift (e.timeOf length) >>= fun time => onAll (pause time)) e := by
  unfold playStatement
  cases length <;> rfl

section Pause

variable {g : Generator} {time : Value} {k : Int} (hk : g.samples time = .ok k)
include hk

theorem pause_of_fits (hfits : g.length + pausePoints k ≤ g.maxLength) :
    pause time g = (.ok ⟨⟩, g.grown (Array.replicate (pausePoints k) 0.0)) := by
  have hpoints : g.length + 1 ≤ g.maxLength ∧ g.length + 1 + (k - 1) ≤ g.maxLength := by
    unfold pausePoints at hfits
    omega
  have hfst : grow 1 #[0.0] g = (.ok ⟨⟩, g.grown #[0.0]) := grow_eq_ok.mpr ⟨mod_cast hpoints.1, rfl⟩
  have hrest : Generator.delay time 1 (g.grown #[0.0]) = (.ok ⟨⟩, (g.grown #[0.0]).grown
      (Array.replicate (k - 1).toNat (g.grown #[0.0]).lastPoint)) := by
    change (lift ((g.grown #[0.0]).samples time) >>= _) (g.grown #[0.0]) = _
    rw [lift_bind_of_ok (show (g.grown #[0.0]).samples time = .ok k from hk)]
    exact grow_eq_ok.mpr ⟨hpoints.2, rfl⟩
  rw [pause, bind_of_ok (show Generator.setNext 0.0 g = _ from hfst), hrest, grown_grown]
  congr 1
  have hcnt : 1 + (k - 1).toNat = pausePoints k := by
    unfold pausePoints
    omega
  cases hreh : g.rehearsal with
  | true => simp only [grown, hreh, if_true, Array.size_append, Array.size_replicate, size_toArray,
      length_singleton, hcnt]
  | false =>
    have hlast : (g.grown #[0.0]).lastPoint = 0.0 := by
      simp [grown, Generator.lastPoint, hreh]
    have hzeros : #[0.0] ++ Array.replicate (k - 1).toNat 0.0 = Array.replicate (pausePoints k) (0.0 : Float) := by
      rw [← hcnt, Nat.add_comm, Array.replicate_succ']
    rw [hlast, hzeros]

theorem fails_pause (hlong : ¬g.length + pausePoints k ≤ g.maxLength) : (pause time).Fails g := by
  rw [fails_iff]
  rintro ⟨u, t, h⟩
  obtain ⟨_, t', hfst, hrest⟩ := bind_eq_ok.mp h
  obtain ⟨hone, rfl⟩ := grow_eq_ok.mp (show grow 1 #[0.0] g = (.ok _, t') from hfst)
  obtain ⟨n, hn, hrest⟩ := lift_bind_eq_ok.mp
    (show (lift ((grown #[0.0] g).samples time) >>= _) (grown #[0.0] g) = _ from hrest)
  cases hk.symm.trans hn
  obtain ⟨hmore, -⟩ := grow_eq_ok.mp (show grow (k - 1) _ (grown #[0.0] g) = _ from hrest)
  have hlen : (grown #[0.0] g).length = g.length + 1 := rfl
  have hmax : (grown #[0.0] g).maxLength = g.maxLength := rfl
  rw [hlen, hmax] at hmore
  unfold pausePoints at hlong
  omega

end Pause

/-- So many points still fit on all waveforms. -/
def Fits (count : Nat) (e : Environment) : Prop :=
  ∀ g ∈ e.generators, g.2.length + count ≤ g.2.maxLength

theorem fits_lengthened_iff {m n : Nat} {e : Environment} : (e.lengthened m).Fits n ↔ e.Fits (m + n) := by
  simp only [Fits, lengthened, forall_mem_map, grown, Array.size_replicate, Nat.add_assoc]

variable {k : Int}

theorem onAll_pause_cases {e : Environment} {time : Value} (hk : ∀ g ∈ e.generators, g.2.samples time = .ok k) :
    e.Fits (pausePoints k) ∧ onAll (pause time) e = (.ok ⟨⟩, e.lengthened (pausePoints k)) ∨
      ¬e.Fits (pausePoints k) ∧ (onAll (pause time)).Fails e := by
  by_cases hfits : e.Fits (pausePoints k)
  · refine .inl ⟨hfits, ?_⟩
    have hpause (g : String × Generator) (hg : g ∈ e.generators) := pause_of_fits (hk g hg) (hfits g hg)
    rw [onAll, onEach_of_ok fun g hg => not_fails_of_eq_ok (hpause g hg)]
    simp only [lengthened]
    congr 2
    refine map_congr_left fun g hg => ?_
    rw [hpause g hg]
  · refine .inr ⟨hfits, ?_⟩
    unfold Fits at hfits
    push Not at hfits
    obtain ⟨g, hg, hlong⟩ := hfits
    obtain ⟨f, gs, hgs⟩ := onEach_of_fails hg (fails_pause (hk g hg) (by omega))
    exact ⟨f, { e with generators := gs }, by rw [onAll, hgs]⟩

/-! ### Two delays and one -/

variable {frequency : Value} {e e₀ : Environment} {t : Environment}

theorem Knows.samples_eq {values : List (Path × Value)} (h : Knows values frequency e) {time : Value}
    (hk : (Generator.fresh frequency false).samples time = .ok k) : ∀ g ∈ e.generators, g.2.samples time = .ok k := by
  intro g hg
  rw [Generator.samples, h.frequency g hg]
  exact hk

theorem Knows.timeOf_eq (h : Knows e₀.values frequency e) (length : Length) : e.timeOf length = e₀.timeOf length := by
  cases length with
  | named name => rw [timeOf, valueAt, h.values, timeOf, valueAt]
  | literal q => rfl

theorem Knows.lengthened {values : List (Path × Value)} (h : Knows values frequency e) (count : Nat) :
    Knows values frequency (e.lengthened count) := by
  refine ⟨h.values, fun g hg => ?_⟩
  obtain ⟨g₀, hg₀, rfl⟩ := mem_map.mp hg
  exact h.frequency g₀ hg₀

theorem playAll_delay_cases {l : Length} (he : Knows e₀.values e₀.frequency e) (hk : e₀.samplesOf l = .ok k)
    (place : Nat) (rest : List Statement) :
    e.Fits (pausePoints k) ∧ playAll (.delay place l :: rest) e = playAll rest (e.lengthened (pausePoints k)) ∨
      ¬e.Fits (pausePoints k) ∧ (playAll (.delay place l :: rest)).Fails e := by
  obtain ⟨time, htime, hk⟩ := Outcome.bind_eq_ok.mp hk
  have hplay : playStatement (.delay place l) e = onAll (pause time) e := by
    rw [playStatement_delay, lift_bind_of_ok ((he.timeOf_eq l).trans htime)]
  rw [Fails, playAll]
  rcases onAll_pause_cases (he.samples_eq hk) with ⟨hfits, hok⟩ | ⟨hlong, f, t, hfault⟩
  · exact .inl ⟨hfits, bind_of_ok (hplay.trans hok)⟩
  · exact .inr ⟨hlong, f, t, bind_of_error (hplay.trans hfault)⟩

theorem playAll_nil (e : Environment) : playAll [] e = (.ok ⟨⟩, e) := by
  rw [playAll]
  rfl

section Two

variable {l l₁ l₂ : Length} {k m n : Int} (hk : e₀.samplesOf l = .ok k) (hm : e₀.samplesOf l₁ = .ok m)
  (hn : e₀.samplesOf l₂ = .ok n) (place place₁ place₂ : Nat)
include hm hn

theorem playAll_delays_cases (he : Knows e₀.values e₀.frequency e) :
    e.Fits (pausePoints m + pausePoints n) ∧ playAll [.delay place₁ l₁, .delay place₂ l₂] e =
        (.ok ⟨⟩, e.lengthened (pausePoints m + pausePoints n)) ∨
      ¬e.Fits (pausePoints m + pausePoints n) ∧ (playAll [.delay place₁ l₁, .delay place₂ l₂]).Fails e := by
  rw [← fits_lengthened_iff, ← lengthened_lengthened]
  rcases playAll_delay_cases he hm place₁ [.delay place₂ l₂] with ⟨-, hfst⟩ | ⟨hlong, hfail⟩
  · rw [Fails, hfst]
    rcases playAll_delay_cases (he.lengthened (pausePoints m)) hn place₂ [] with ⟨hfits, hsnd⟩ | hfail
    · exact .inl ⟨hfits, hsnd.trans (playAll_nil _)⟩
    · exact .inr hfail
  · refine .inr ⟨fun hfits => hlong fun g hg => ?_, hfail⟩
    have := fits_lengthened_iff.mp hfits g hg
    omega

include hk

/-- Two delays do the same as one, if their points add up to its points. -/
theorem mirrors_delays (hpoints : pausePoints m + pausePoints n = pausePoints k) :
    MirrorsSame e₀.values e₀.frequency (playAll [.delay place l]) (playAll [.delay place₁ l₁, .delay place₂ l₂]) := by
  rintro e _ ⟨rfl, he⟩
  have htwo := playAll_delays_cases hm hn place₁ place₂ he
  rw [hpoints] at htwo
  rcases playAll_delay_cases he hk place [] with ⟨hfits, hone⟩ | ⟨hlong, f, t, hfault⟩
  · rcases htwo with ⟨-, htwo⟩ | ⟨hlong, -⟩
    · exact .inl ⟨⟨⟩, _, _, hone.trans (playAll_nil _), htwo, rfl, he.lengthened _⟩
    · exact absurd hfits hlong
  · rcases htwo with ⟨hfits, -⟩ | ⟨-, f', t', hfault'⟩
    · exact absurd hfits hlong
    · exact .inr ⟨f', t', hfault', by rintro _ ⟨⟩; exact ⟨f, t, hfault, trivial⟩⟩

end Two

/-! ### Whole programs -/

theorem keeps_run (b : Block) : Keeps (fixtures Generator.manner) (run b) := by
  refine (keeps_within .block (keeps_playAll b)).bind fun _ => .get_bind fun e => ?_
  split
  · rfl
  · rfl

theorem map_fst_of_run {b : Block} (h : run b e = (.ok ⟨⟩, t)) : t.generators.map (·.1) = e.generators.map (·.1) := by
  have hkept := congrArg (fun x => x.outputs.map (·.1)) ((keeps_run b).apply h)
  simpa [fixtures, Function.comp_def] using hkept

theorem eq_of_perm_of_names {gs gs' : List (String × Generator)} (hperm : gs'.Perm gs)
    (hnames : gs'.map (·.1) = gs.map (·.1)) (hnd : (gs.map (·.1)).Nodup) : gs' = gs := by
  induction gs generalizing gs' with
  | nil => exact hperm.eq_nil
  | cons g rest ih =>
    obtain ⟨g', rest', rfl, hname, hrest⟩ := map_eq_cons_iff.mp hnames
    obtain rfl : g' = g := by
      have hmem : g' ∈ g :: rest := hperm.mem_iff.mp mem_cons_self
      exact inj_on_of_nodup_map hnd hmem mem_cons_self hname
    rw [ih hperm.cons_inv hrest (nodup_cons.mp hnd).2]

/-- The waveforms after a computation, if it succeeds. -/
def wavesOf (act : Act Environment PUnit) (e : Environment) : Option (List (String × Generator)) :=
  (act e).1.toOption.map fun _ => (act e).2.generators

variable {act : Act Environment PUnit}

theorem wavesOf_of_ok (h : act e = (.ok ⟨⟩, t)) : wavesOf act e = some t.generators := by
  rw [wavesOf, h]
  rfl

theorem wavesOf_of_fails (h : act.Fails e) : wavesOf act e = none := by
  obtain ⟨f, t, h⟩ := h
  rw [wavesOf, h]
  rfl

/-- The environment of a program with another source, which may have an acquisition or not. -/
def resourced (source : String) (acquisition : Bool) (e : Environment) : Environment :=
  { e with source, acquisition }

/-- A program has the same waveforms without its places, and with another source. -/
theorem wavesOf_run_bare {b : Block} (hnd : (e.generators.map (·.1)).Nodup)
    (hb : ∀ s ∈ b, s.WrittenIn e.source.length) (source : String) (acquisition rehearsal : Bool) :
    wavesOf (run b.bare) (started rehearsal (e.resourced source acquisition)) =
      wavesOf (run b) (started rehearsal e) := by
  have hakin : Akin e.source.length (started rehearsal e) (started rehearsal (e.resourced source acquisition)) := by
    apply akin_started
    · exact fun _ => rfl
    · exact fun _ => rfl
    · rfl
    · rfl
    · exact .refl _
    · exact hnd
  rcases (mirrors_run_akin hb).cases hakin with ⟨⟨⟩, t, u, ht, hu, htu⟩ | ⟨f, f', t, u, ht, hu, -⟩
  · rw [wavesOf_of_ok ht, wavesOf_of_ok hu, eq_of_perm_of_names htu.generators ?_ htu.names]
    rw [map_fst_of_run ht, map_fst_of_run hu]
    rfl
  · rw [wavesOf_of_fails ⟨f, t, ht⟩, wavesOf_of_fails ⟨f', u, hu⟩]

theorem wavesOf_run_of_mirrors {b b' : Block} (he : Knows e₀.values e₀.frequency e)
    (h : MirrorsSame e₀.values e₀.frequency (playAll b) (playAll b')) : wavesOf (run b') e = wavesOf (run b) e := by
  have hclose : MirrorsSame e₀.values e₀.frequency close close := by
    refine mirrors_same fun t ht => ?_
    rw [close, get_bind]
    split
    · exact ht
    · exact ht
  have hrun : MirrorsSame e₀.values e₀.frequency (run b) (run b') := (mirrors_same_within h .block).bind fun _ => hclose
  rcases hrun.cases ⟨rfl, he⟩ with ⟨⟨⟩, t, _, ht, ht', rfl, -⟩ | ⟨f, f', t, t', ht, ht', -⟩
  · rw [wavesOf_of_ok ht, wavesOf_of_ok ht']
  · rw [wavesOf_of_fails ⟨f, t, ht⟩, wavesOf_of_fails ⟨f', t', ht'⟩]

theorem wavesOf_perform_of_mirrors {b b' : Block} {source : String}
    (hnd : (e.generators.map (·.1)).Nodup) (hb : ∀ s ∈ b, s.WrittenIn e.source.length)
    (hb' : ∀ s ∈ b', s.WrittenIn source.length) (acquisition rehearsal : Bool)
    (h : MirrorsSame e.values e.frequency (playAll b.bare) (playAll b'.bare)) :
    wavesOf (Program.perform b' rehearsal) (e.resourced source acquisition) =
      wavesOf (Program.perform b rehearsal) e := by
  by_cases hnone : e.missing = .ok []
  · have hnone' : (e.resourced source acquisition).missing = .ok [] := hnone
    have hbare' := wavesOf_run_bare (e := e.resourced source acquisition) hnd hb' source acquisition rehearsal
    rw [wavesOf, perform_of_missing hnone', wavesOf, perform_of_missing hnone, ← wavesOf, ← wavesOf, ← hbare',
      ← wavesOf_run_bare hnd hb source acquisition rehearsal]
    exact wavesOf_run_of_mirrors (knows_started rehearsal (e.resourced source acquisition)) h
  · -- values are missing in both programs
    obtain ⟨f, hf⟩ := perform_of_missing_ne hnone b rehearsal
    obtain ⟨f', hf'⟩ := perform_of_missing_ne hnone b' rehearsal
    rw [wavesOf_of_fails ⟨f, _, hf e rfl⟩, wavesOf_of_fails ⟨f', _, hf' (e.resourced source acquisition) rfl⟩]

end Environment

namespace Program

open Environment Text

theorem generate_toOption (rehearsal : Bool) (p : Program) : (generate rehearsal p).1.toOption =
    (wavesOf (perform p.block rehearsal) p.env).map fun gs => gs.map fun g => (g.1, g.2.waveform, g.2.length) := by
  rw [generate_fst, wavesOf]
  rcases perform p.block rehearsal p.env with ⟨f | u, t⟩ <;> rfl

variable {source source' : String} {b b' : Block} {c : Context} {l l₁ l₂ : Length}

theorem isDelay_single (l : Length) : ∀ s ∈ [Statement.delay 0 l], s.isDelay = true :=
  forall_mem_singleton.mpr rfl

theorem isDelay_pair (l₁ l₂ : Length) : ∀ s ∈ [Statement.delay 0 l₁, Statement.delay 0 l₂], s.isDelay = true :=
  forall_mem_cons.mpr ⟨rfl, isDelay_single l₂⟩

section Split

variable (hb : b.bare = c.fill [.delay 0 l]) (hb' : b'.bare = c.fill [.delay 0 l₁, .delay 0 l₂])
include hb hb'

theorem kinds_of_split : b'.kinds = b.kinds := by
  rw [← kinds_bare, hb', Context.kinds_fill (isDelay_single l) (isDelay_pair l₁ l₂), ← hb, kinds_bare]

theorem settings_of_split : b'.settings = b.settings := by
  rw [← settings_bare, hb', Context.settings_fill (isDelay_single l) (isDelay_pair l₁ l₂), ← hb, settings_bare]

theorem admissible_of_split (h : b.Admissible) (hfits : ∀ t ∈ [l₁, l₂], t.Fits b.scheme ∧ t.IsTime) :
    b'.Admissible := by
  rw [← admissible_bare_iff, hb] at h
  rw [← admissible_bare_iff, hb']
  refine Context.admissible_fill (isDelay_single l) (isDelay_pair l₁ l₂) h ?_
  rw [← hb, scheme_bare]
  simpa [Statement.FitsAlone] using hfits

theorem environment_of_split (source source' : String) (frequency : Value) (folder : Option Folder) :
    ∃ acquisition, b'.environment (.blank source' frequency folder) =
      (b.environment (.blank source frequency folder)).resourced source' acquisition := by
  refine ⟨(b'.environment (.blank source' frequency folder)).acquisition, ?_⟩
  simp only [environment, noting, having, outset, resourced, blank, needed, Block.outputs,
    kinds_of_split hb hb', settings_of_split hb hb']

end Split

/-- One delay is split into two, anywhere in an accepted source. If the new lengths are times, then the new source is
accepted as well. If the single delay has as many samples as both parts, where a part without samples counts as one
sample, then both sources have the same waveforms, or none. -/
theorem ofSource_splits_delay (folder : Option Folder) (filename : String) (h : read (expandTabs source) = .ok b)
    (h' : read (expandTabs source') = .ok b') (hb : b.bare = c.fill [.delay 0 l])
    (hb' : b'.bare = c.fill [.delay 0 l₁, .delay 0 l₂]) (hfits : ∀ t ∈ [l₁, l₂], t.Fits b.scheme ∧ t.IsTime)
    {p : Program} (hp : ofSource source folder filename = .ok p) :
    ∃ p', ofSource source' folder filename = .ok p' ∧
      ∀ (settings : List (Path × Value)) (frequency : Value) (rehearsal : Bool) (m n : Int),
        ((p.setValues settings).setFrequency frequency).env.samplesOf l₁ = .ok m →
        ((p.setValues settings).setFrequency frequency).env.samplesOf l₂ = .ok n →
        ((p.setValues settings).setFrequency frequency).env.samplesOf l = .ok (max 1 m + max 1 n) →
          (generate rehearsal ((p'.setValues settings).setFrequency frequency)).1.toOption =
            (generate rehearsal ((p.setValues settings).setFrequency frequency)).1.toOption := by
  have hadmissible : b.Admissible := (exists_ofSource_iff h).mp ⟨p, hp⟩
  obtain ⟨p', hp'⟩ : ∃ p', ofSource source' folder filename = .ok p' :=
    (exists_ofSource_iff h').mpr (admissible_of_split hb hb' hadmissible hfits)
  obtain ⟨rfl, hertz, hhertz, henv⟩ := exists_environment_of_ofSource h hp
  obtain ⟨rfl, hertz', hhertz', henv'⟩ := exists_environment_of_ofSource h' hp'
  obtain rfl : hertz = hertz' := Except.ok.inj (hhertz.symm.trans hhertz')
  obtain ⟨acquisition, hsplit⟩ := environment_of_split hb hb' (expandTabs source) (expandTabs source') (.quantity hertz)
    folder
  rw [← henv, ← henv'] at hsplit
  refine ⟨p', hp', fun settings frequency rehearsal m n hm hn hk => ?_⟩
  -- both programs in the environments with their parameters
  rw [setFrequency_setValues] at hm hn hk ⊢
  rw [setFrequency_setValues, generate_toOption, generate_toOption]
  refine congrArg (Option.map _) ?_
  have hadjusted : p'.env.adjusted settings frequency =
      (p.env.adjusted settings frequency).resourced (expandTabs source') acquisition := by
    rw [hsplit]
    rfl
  have hnodup : ((p.env.adjusted settings frequency).generators.map (·.1)).Nodup := by
    rw [henv]
    simpa [adjusted, environment, noting, having, outset, Function.comp_def] using p.block.nodup_outputs
  have hwritten : ∀ s ∈ p.block, s.WrittenIn (p.env.adjusted settings frequency).source.length := by
    rw [henv]
    exact writtenIn_of_read h
  rw [hadjusted]
  refine wavesOf_perform_of_mirrors hnodup hwritten (writtenIn_of_read h') acquisition rehearsal ?_
  rw [hb, hb']
  refine Context.mirrors_fill (mirrors_delays hk hm hn 0 0 0 ?_) c
  unfold pausePoints
  omega

def seconds (x : Float) : Value :=
  .quantity ⟨x, ⟨0, 0, 1, 0, 0, 0, 0⟩, "s", .whole 0⟩

/-- One sample for each second. -/
def oneHertz : Value :=
  .quantity ⟨1.0, ⟨0, 0, -1, 0, 0, 0, 0⟩, "Hz", .whole 0⟩

def lengths (d x y : Float) : List (Path × Value) :=
  [(["d"], seconds d), (["x"], seconds x), (["y"], seconds y)]

/-- A delay in a loop is split. Three seconds in parts of one and two seconds make no difference, and parts of zero and
three seconds do the same as four seconds: there are eight points, and with three seconds there are six. -/
theorem ofSource_splits_delay_in_loop : ∃ p p', ofSource "output a\ndelay d, x, y\ntimes 2 \x7b\nd\n\x7d\n" = .ok p ∧
      ofSource "output a\ndelay d, x, y\ntimes 2 \x7b\nx\ny\n\x7d\n" = .ok p' ∧
      (generate false ((p'.setValues (lengths 3 1 2)).setFrequency oneHertz)).1.toOption =
        (generate false ((p.setValues (lengths 3 1 2)).setFrequency oneHertz)).1.toOption ∧
      (generate false ((p'.setValues (lengths 4 0 3)).setFrequency oneHertz)).1.toOption =
        (generate false ((p.setValues (lengths 4 0 3)).setFrequency oneHertz)).1.toOption ∧
      [p, p'].map (fun p => (generate false ((p.setValues (lengths 3 0 3)).setFrequency oneHertz)).1.toOption.map
        fun ws => ws.map (·.2.2)) = [some [6], some [8]] := by
  have h : read (expandTabs "output a\ndelay d, x, y\ntimes 2 \x7b\nd\n\x7d\n") = .ok
      [.declare 0 .output [.plain 7 "a"], .declare 9 .delay [.plain 15 "d", .plain 18 "x", .plain 21 "y"],
        .loop 23 (.literal 2) [.delay 33 (.named "d")]] := by
    with_unfolding_all rfl
  have h' : read (expandTabs "output a\ndelay d, x, y\ntimes 2 \x7b\nx\ny\n\x7d\n") = .ok
      [.declare 0 .output [.plain 7 "a"], .declare 9 .delay [.plain 15 "d", .plain 18 "x", .plain 21 "y"],
        .loop 23 (.literal 2) [.delay 33 (.named "x"), .delay 35 (.named "y")]] := by
    with_unfolding_all rfl
  have hruns : (ofSource "output a\ndelay d, x, y\ntimes 2 \x7b\nd\n\x7d\n").toOption.any (fun p =>
      (ofSource "output a\ndelay d, x, y\ntimes 2 \x7b\nx\ny\n\x7d\n").toOption.any fun p' =>
        ["d", "x", "y"].map (fun name => (((p.setValues (lengths 3 1 2)).setFrequency oneHertz).env.samplesOf
          (.named name)).toOption) = [some 3, some 1, some 2] ∧
        ["d", "x", "y"].map (fun name => (((p.setValues (lengths 4 0 3)).setFrequency oneHertz).env.samplesOf
          (.named name)).toOption) = [some 4, some 0, some 3] ∧
        [p, p'].map (fun p => (generate false ((p.setValues (lengths 3 0 3)).setFrequency oneHertz)).1.toOption.map
          fun ws => ws.map (·.2.2)) = [some [6], some [8]]) = true := by
    decide +kernel
  obtain ⟨p, hp, hruns⟩ := Outcome.exists_of_any hruns
  obtain ⟨_, hsource, hruns⟩ := Outcome.exists_of_any hruns
  obtain ⟨hsame, hmore, hlengths⟩ := of_decide_eq_true hruns
  simp only [map_cons, map_nil, cons.injEq, and_true] at hsame hmore
  obtain ⟨p', hp', hlaw⟩ := ofSource_splits_delay none "" h h' (c := .later (.declare 0 .output [.plain 0 "a"])
      (.later (.declare 0 .delay [.plain 0 "d", .plain 0 "x", .plain 0 "y"]) (.inside 0 (.literal 2) (.here []) [])))
    rfl rfl (forall_mem_cons.mpr ⟨⟨rfl, trivial⟩, forall_mem_singleton.mpr ⟨rfl, trivial⟩⟩) hp
  obtain rfl := Except.ok.inj (hp'.symm.trans hsource)
  refine ⟨p, p', hp, hp', hlaw (lengths 3 1 2) oneHertz false 1 2 ?_ ?_ ?_,
    hlaw (lengths 4 0 3) oneHertz false 0 3 ?_ ?_ ?_, hlengths⟩
  · exact Outcome.eq_ok_of_toOption hsame.2.1
  · exact Outcome.eq_ok_of_toOption hsame.2.2
  · exact Outcome.eq_ok_of_toOption hsame.1
  · exact Outcome.eq_ok_of_toOption hmore.2.1
  · exact Outcome.eq_ok_of_toOption hmore.2.2
  · exact Outcome.eq_ok_of_toOption hmore.1

end Program

end Pulse

end LabBench
