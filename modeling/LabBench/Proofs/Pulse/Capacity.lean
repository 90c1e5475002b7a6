import LabBench.Proofs.Pulse.Acquisition
/-!
# The number of points of waveforms

A waveform may have so many points and no more. Every operation counts the points that it is about to add, refuses to
go on if they do not fit, and adds them afterwards. So the limit is never passed, and the points that are kept are those
that have been counted, also after a fault between two parts of an operation.

In a program the zeros at the end of parallel sequences are not counted before they are added. They make a waveform as
long as the longest one, which is within the limit already.

## Main results

* `accounted_throughout`
-/

namespace LabBench

open Act List

/-! ### Single waveforms -/

namespace Generator

/-- What can be done to a waveform under construction. -/
inductive Operation where
  | setNext (point : Float)
  | delay (time : Value) (lessPoints : Int)
  | square (amplitude : Float) (time : Value)
  | pulse (points : Array Float) (amplitude time : Value)
  | mark (name level : Value)

def Operation.act : Operation → Act Generator PUnit
  | .setNext point => Generator.setNext point
  | .delay time lessPoints => Generator.delay time lessPoints
  | .square amplitude time => Generator.square amplitude time
  | .pulse points amplitude time => Generator.pulse points amplitude time
  | .mark name level => Generator.mark name level

/-- A waveform after operations, of which each is tried also if the one before it has ended in a fault. -/
def after (operations : List Operation) (g : Generator) : Generator :=
  operations.foldl (fun g operation => (operation.act g).2) g

/-- A waveform has no more points than it may have. If its points are kept, then they are as many as have been
counted. -/
def Accounted (g : Generator) : Prop :=
  g.length ≤ g.maxLength ∧ (g.rehearsal = false → g.wave.size = g.length)

/-- A waveform with a given limit is accounted for. In a rehearsal it keeps no points at all. -/
structure Limited (limit : Nat) (rehearsal : Bool) (g : Generator) : Prop where
  maxLength_eq : g.maxLength = limit
  rehearsal_eq : g.rehearsal = rehearsal
  length_le : g.length ≤ limit
  size_eq : g.wave.size = if rehearsal then 0 else g.length

variable {limit : Nat} {rehearsal : Bool} {g : Generator}

theorem Limited.accounted (h : Limited limit rehearsal g) : g.Accounted := by
  refine ⟨h.maxLength_eq ▸ h.length_le, fun hkept => ?_⟩
  rw [h.size_eq, ← h.rehearsal_eq, hkept]
  rfl

theorem Limited.size_le (h : Limited limit rehearsal g) : g.wave.size ≤ if rehearsal then 0 else limit := by
  rw [h.size_eq]
  split
  · exact Nat.le_refl 0
  · exact h.length_le

/-- A waveform without points, which may have so many points. -/
def freshWithin (limit : Nat) (frequency : Value) (rehearsal : Bool) : Generator :=
  { fresh frequency rehearsal with maxLength := limit }

theorem limited_freshWithin (limit : Nat) (frequency : Value) (rehearsal : Bool) :
    Limited limit rehearsal (freshWithin limit frequency rehearsal) := by
  refine ⟨rfl, rfl, Nat.zero_le limit, ?_⟩
  cases rehearsal <;> rfl

theorem Limited.grown (h : Limited limit rehearsal g) {points : Array Float} (hfits : g.length + points.size ≤ limit) :
    Limited limit rehearsal (g.grown points) := by
  refine ⟨h.maxLength_eq, h.rehearsal_eq, hfits, ?_⟩
  have hsize := h.size_eq
  simp only [Generator.grown, h.rehearsal_eq]
  cases rehearsal with
  | true => exact hsize
  | false =>
    rw [if_neg Bool.false_ne_true] at hsize ⊢
    rw [if_neg Bool.false_ne_true, Array.size_append, hsize]

/-- Points are counted before they are added. A negative number of points is no reason to refuse, and adds nothing. -/
theorem IsGrowth.preserves_limited {act : Act Generator PUnit} (h : IsGrowth act) :
    Preserves (Limited limit rehearsal) act := by
  refine h _ fun additional points hsize g hg => ?_
  rcases hgrow : grow additional points g with ⟨f | u, t⟩
  · have hchk : (checkLength additional g).2 = g := by
      rw [checkLength, Act.get_bind]
      split <;> rfl
    obtain rfl : g = t := by
      rcases hact : checkLength additional g with ⟨f | u, s⟩
      · rw [grow, bind_of_error hact] at hgrow
        rw [hact] at hchk
        cases hgrow
        exact hchk.symm
      · rw [grow, bind_of_ok hact] at hgrow
        cases hgrow
    exact hg
  · obtain ⟨hfits, rfl⟩ := grow_eq_ok.mp hgrow
    have hmax := hg.maxLength_eq
    have hle := hg.length_le
    exact hg.grown (by omega)

theorem preserves_limited_mark (name level : Value) : Preserves (Limited limit rehearsal) (mark name level) := by
  intro g hg
  rw [mark, Act.get_bind]
  split
  · exact hg
  · split
    · exact hg
    · exact ⟨hg.maxLength_eq, hg.rehearsal_eq, hg.length_le, hg.size_eq⟩

theorem Operation.preserves_limited (operation : Operation) : Preserves (Limited limit rehearsal) operation.act := by
  cases operation with
  | setNext point => exact (isGrowth_setNext point).preserves_limited
  | delay time lessPoints => exact (isGrowth_delay time lessPoints).preserves_limited
  | square amplitude time => exact (isGrowth_square amplitude time).preserves_limited
  | pulse points amplitude time => exact (isGrowth_pulse points amplitude time).preserves_limited
  | mark name level => exact preserves_limited_mark name level

theorem Limited.after (h : Limited limit rehearsal g) (operations : List Operation) :
    Limited limit rehearsal (g.after operations) := by
  induction operations generalizing g with
  | nil => exact h
  | cons operation rest ih => exact ih (operation.preserves_limited g h)

end Generator

namespace Pulse

open Generator (Limited Operation freshWithin limited_freshWithin preserves_limited_mark)

namespace Environment

/-! ### Commands -/

/-- All waveforms are within a limit and accounted for. -/
def Bounded (limit : Nat) (rehearsal : Bool) (e : Environment) : Prop :=
  ∀ g ∈ e.generators, Limited limit rehearsal g.2

variable {limit : Nat} {rehearsal : Bool} {e : Environment}

theorem preserves_bounded_onOutput (name : String) {act : Act Generator PUnit}
    (hact : Preserves (Limited limit rehearsal) act) : Preserves (Bounded limit rehearsal) (onOutput name act) := by
  intro e he
  cases hget : Entries.get? name e.generators with
  | none =>
    rw [onOutput_of_none hget]
    exact he
  | some g =>
    have hafter := hact g (he _ (Entries.mem_of_get? hget))
    rcases hrun : act g with ⟨r, g'⟩
    rw [hrun] at hafter
    rw [onOutput_of_some hget hrun]
    intro k hk
    rcases Entries.mem_or_mem_of_mem_put hk with rfl | hk
    · exact hafter
    · exact he k hk

theorem preserves_bounded_onAll {act : Act Generator PUnit} (hact : Preserves (Limited limit rehearsal) act) :
    Preserves (Bounded limit rehearsal) (onAll act) := by
  intro e he g hg
  have hmatched : Matched (fun _ g => Limited limit rehearsal g) e.generators (onEach act e.generators).2 :=
    Matched.onEach (forall₂_same.mpr fun g hg => ⟨rfl, he g hg⟩) fun _ => hact
  obtain ⟨_, _, -, hlimited⟩ := hmatched.flip.exists_right hg
  exact hlimited

/-- No waveform gets longer than the longest one, so that the zeros do not have to be counted beforehand. In a
rehearsal no waveform is shorter than the others. -/
theorem preserves_bounded_level : Preserves (Bounded limit rehearsal) level := by
  intro e he
  have hlongest : longestBy (·.wave.size) e.generators ≤ if rehearsal then 0 else limit :=
    longestBy_le_iff.mpr fun g hg => (he g hg).size_le
  rw [level_eq, levelBy_eq]
  intro g' hg'
  obtain ⟨g, hg, rfl⟩ := mem_map.mp hg'
  refine (he g hg).grown ?_
  have hsize := (he g hg).size_eq
  have hle := (he g hg).length_le
  rw [Array.size_replicate]
  dsimp only
  cases rehearsal with
  | true =>
    rw [if_pos rfl] at hlongest
    omega
  | false =>
    rw [if_neg Bool.false_ne_true] at hlongest hsize
    omega

theorem lasting_bounded (limit : Nat) (rehearsal : Bool) : Lasting (Bounded limit rehearsal) where
  update _ he _ _ := he
  problem message place := by
    intro e he
    cases hloc : locate e.source place with
    | error f =>
      rw [addProblem_of_error hloc]
      exact he
    | ok location =>
      rw [addProblem_of_ok hloc]
      exact he
  onOutput name _ hact := preserves_bounded_onOutput name hact.preserves_limited
  onAll hact := preserves_bounded_onAll hact.preserves_limited
  level := preserves_bounded_level

theorem preserves_bounded_playAcquisition : Preserves (Bounded limit rehearsal) playAcquisition :=
  (lasting_bounded limit rehearsal).playAcquisition fun _ _ name =>
    preserves_bounded_onOutput name (preserves_limited_mark _ _)

theorem preserves_bounded_playAll (ss : List Statement) : Preserves (Bounded limit rehearsal) (playAll ss) := by
  rw [← playAllWith_eq ss]
  exact (lasting_bounded limit rehearsal).playAllWith preserves_bounded_playAcquisition ss

/-! ### Whole programs -/

theorem bounded_started (rehearsal : Bool) (e : Environment) : Bounded 10000000 rehearsal (started rehearsal e) := by
  intro g hg
  obtain ⟨_, _, rfl⟩ := mem_map.mp hg
  exact limited_freshWithin 10000000 _ rehearsal

theorem preserves_bounded_run (b : Block) : Preserves (Bounded limit rehearsal) (run b) := by
  refine ((lasting_bounded limit rehearsal).within .block (preserves_bounded_playAll b)).bind fun _ => ?_
  exact Preserves.get.bind fun e => .ite (.fail _) (.pure _)

end Environment

namespace Program

open Environment

theorem perform_cases (b : Block) (rehearsal : Bool) (e : Environment) :
    (∃ f, perform b rehearsal e = (.error f, cleared rehearsal e)) ∨
      perform b rehearsal e = run b (started rehearsal e) := by
  by_cases hmiss : e.missing = .ok []
  · exact .inr (perform_of_missing hmiss b rehearsal)
  · obtain ⟨f, hf⟩ := perform_of_missing_ne hmiss b rehearsal
    exact .inl ⟨f, hf e rfl⟩

/-- All waveforms of a program are within the limit, those of its last run or those before the first one. -/
def WithinLimit (p : Program) : Prop :=
  ∃ rehearsal, Bounded 10000000 rehearsal p.env

variable {p : Program}

theorem WithinLimit.use (h : p.WithinLimit) (u : Use) : (p.use u).WithinLimit := by
  cases u with
  | setValue path v | setFrequency v | replaceFiles folder => exact h
  | generate rehearsal =>
    change ∃ r, Bounded 10000000 r (perform p.block rehearsal p.env).2
    rcases perform_cases p.block rehearsal p.env with ⟨f, hfault⟩ | hrun
    · -- the waveforms are those of the run before
      rw [hfault]
      exact h
    · rw [hrun]
      exact ⟨rehearsal, preserves_bounded_run p.block _ (bounded_started rehearsal p.env)⟩

theorem WithinLimit.after (h : p.WithinLimit) (uses : List Use) : (p.after uses).WithinLimit := by
  induction uses generalizing p with
  | nil => exact h
  | cons u rest ih => exact ih (h.use u)

theorem withinLimit_of_ofSource {source filename : String} {folder : Option Folder}
    (h : ofSource source folder filename = .ok p) : p.WithinLimit := by
  obtain ⟨b, hread, -⟩ := Outcome.bind_eq_ok.mp h
  obtain ⟨-, hertz, -, henv⟩ := exists_environment_of_ofSource hread h
  refine ⟨false, fun g hg => ?_⟩
  rw [henv] at hg
  obtain ⟨_, _, rfl⟩ := mem_map.mp (show g ∈ b.outputs.map _ from hg)
  exact limited_freshWithin 10000000 _ false

/-- A waveform never has more points than it may have, and keeps those that have been counted: after any operations,
with a fault or without one, and through every step and any commands of a program. -/
theorem accounted_throughout : (∀ (limit : Nat) (frequency : Value) (rehearsal : Bool) (operations : List Operation),
      ((freshWithin limit frequency rehearsal).after operations).Accounted) ∧
    (∀ (limit : Nat) (rehearsal : Bool), Lasting (Bounded limit rehearsal) ∧
      ∀ ss, Preserves (Bounded limit rehearsal) (playAll ss)) ∧
    ∀ (source filename : String) (folder : Option Folder) (p : Program), ofSource source folder filename = .ok p →
        ∀ (uses : List Use), ∀ g ∈ (p.after uses).env.generators, g.2.Accounted := by
  refine ⟨fun limit frequency rehearsal operations => ?_, fun limit rehearsal => ?_,
    fun source filename folder p h uses => ?_⟩
  · exact ((limited_freshWithin limit frequency rehearsal).after operations).accounted
  · exact ⟨lasting_bounded limit rehearsal, preserves_bounded_playAll⟩
  · obtain ⟨rehearsal, hbounded⟩ := (withinLimit_of_ofSource h).after uses
    exact fun g hg => (hbounded g hg).accounted

/-- One output is filled up to the three points of the other one. -/
theorem accounted_of_padding : ∃ p, ofSource "output a, b\ndelay d = 3 s\n(d):a\n" = .ok p ∧
    ∃ g ∈ (p.after [.generate false]).env.generators, g.1 = "b" ∧ g.2.length = 3 ∧ g.2.Accounted := by
  have hruns : (ofSource "output a, b\ndelay d = 3 s\n(d):a\n").toOption.any (fun p =>
      (p.after [.generate false]).env.generators.any fun g => g.1 = "b" && g.2.length = 3) = true := by
    decide +kernel
  rcases hsource : ofSource "output a, b\ndelay d = 3 s\n(d):a\n" with f | p
  · rw [hsource] at hruns
    cases hruns
  · rw [hsource] at hruns
    obtain ⟨g, hg, hpadded⟩ := any_eq_true.mp hruns
    obtain ⟨hname, hlength⟩ := Bool.and_eq_true_iff.mp hpadded
    refine ⟨p, rfl, g, hg, of_decide_eq_true hname, of_decide_eq_true hlength, ?_⟩
    exact accounted_throughout.2.2 _ _ _ p hsource _ g hg

end Program

end Pulse

end LabBench
