import LabBench.Proofs.Pulse.Contents
import LabBench.Proofs.Pulse.Reading
/-!
# Pulse programs in two environments

The same commands are carried out in two environments, possibly from different places in their sources. They go the
same way in both if the environments are related by a *congruence*: it has to last while a waveform, or all of them,
are worked on, and while a problem or a missing shape is noted. What the commands read has to be the same in related
environments: the kinds and the values of variables, the shape files, and the shapes that are missing.

With a single environment in place of two of them, a congruence is a property that lasts.
-/

namespace LabBench.Pulse

open Statement

namespace Environment

open Act

open Generator (Growth manner IsGrowth)

variable {f : Nat → Nat} {n : Option Nat} {R : Environment → Environment → Prop}
  {F : Option (Fault × Environment → Fault × Environment → Prop)} {e : Environment} {place : Nat}

/-- A relation between environments that lasts while the same commands are carried out in both of them, at the places in
the first one and at others in the second one. -/
structure Congruence (f : Nat → Nat) (n : Option Nat) (R : Environment → Environment → Prop)
    (F : Option (Fault × Environment → Fault × Environment → Prop)) : Prop where
  fault : ∀ G ∈ F, ∀ e e', R e e' → ∀ fault, G (fault, e) (fault, e')
  kindOf : ∀ {e e'}, R e e' → ∀ name, e'.kindOf name = e.kindOf name
  valueAt : ∀ {e e'}, R e e' → ∀ path, e'.valueAt path = e.valueAt path
  folder : ∀ {e e'}, R e e' → e'.folder = e.folder
  missingShapes : ∀ {e e'}, R e e' → e'.missingShapes = e.missingShapes
  stack : ∀ {e e'}, R e e' → ∀ g : List Frame → List Frame,
    R { e with stack := g e.stack } { e' with stack := g e'.stack }
  note : ∀ {e e'}, R e e' → ∀ missingShapes, R { e with missingShapes } { e' with missingShapes }
  problem : ∀ message {place}, (∀ m ∈ n, place ≤ m) →
    Mirrors R F (addProblem message place) (addProblem message (f place))
  onOutput : ∀ name {act}, Growth act → Mirrors R F (onOutput name act) (onOutput name act)
  onAll : ∀ {act}, Growth act → Mirrors R F (onAll act) (onAll act)

/-! ### Single steps -/

theorem addProblem_of_ok {message : String} {location : Option Location} (h : locate e.source place = .ok location) :
    addProblem message place e = (.ok ⟨⟩, { e with problems := e.problems ++ [(message, location)] }) :=
  lift_bind_of_ok h _ e

theorem addProblem_of_error {message : String} {f : Fault}
    (h : locate e.source place = .error f) : addProblem message place e = (.error f, e) := by
  rw [addProblem, get_bind, h]
  rfl

/-! ### Commands -/

theorem mirrors_repeated {act act' : Act Environment PUnit} (hact : Mirrors R F act act') (count : Nat) :
    Mirrors R F (repeated act count) (repeated act' count) := by
  induction count with
  | zero => exact .pure _
  | succ count ih => exact hact.bind fun _ => ih

namespace Congruence

section

variable (h : Congruence f n R F)
include h

theorem lift {α : Type} (x : Outcome α) : Mirrors R F (Act.lift x) (Act.lift x) :=
  .lift h.fault x

theorem within (frame : Frame) {α : Type} {act act' : Act Environment α} (hact : Mirrors R F act act') :
    Mirrors R F (within frame act) (within frame act') :=
  (Mirrors.modify fun _ _ he => h.stack he (frame :: ·)).bind fun _ => hact.bind fun a =>
    (Mirrors.modify fun _ _ he => h.stack he List.tail).bind fun _ => .pure a

theorem playShape (hplace : ∀ m ∈ n, place ≤ m) (output name shape : String) (amplitude : Float)
    (length : Value) : Mirrors R F (playShape place output name shape amplitude length)
      (playShape (f place) output name shape amplitude length) := by
  refine .get_bind fun e e' he => ?_
  rw [h.folder he]
  refine (h.lift _).bind fun found => ?_
  cases found with
  | some points => exact h.onOutput output (.pulse ..)
  | none =>
    refine (h.problem _ hplace).bind fun _ => .modify fun e e' he => ?_
    rw [h.missingShapes he]
    exact h.note he _

theorem playPulse (hplace : ∀ m ∈ n, place ≤ m) (output name : String) :
    Mirrors R F (playPulse place output name) (playPulse (f place) output name) := by
  refine .get_bind fun e e' he => ?_
  simp only [h.valueAt he, h.missingShapes he]
  refine (h.lift _).bind fun amplitude => (h.lift _).bind fun length => (h.lift _).bind fun shape =>
    (h.lift _).bind fun missing => ?_
  split
  · refine (h.lift _).bind fun isSquare => ?_
    split
    · exact h.onOutput output (.square ..)
    · cases shape with
      | text s => exact h.playShape hplace output name s _ _
      | _ => exact .fail h.fault _
  · exact .pure _

theorem playPiece (hplace : ∀ m ∈ n, place ≤ m) (output : String) (piece : Piece) :
    Mirrors R F (playPiece place output piece) (playPiece (f place) output piece) := by
  cases piece with
  | delay q => exact h.onOutput output (.pause _)
  | named name =>
    refine .get_bind fun e e' he => ?_
    rw [h.kindOf he]
    cases e.kindOf name with
    | none => exact .fail h.fault _
    | some kind =>
      cases kind with
      | delay =>
        simp only [h.valueAt he]
        exact (h.lift _).bind fun time => h.onOutput output (.pause time)
      | pulse => exact h.playPulse hplace output name
      | _ => exact .pure _

theorem playTrain {t : Train} (ht : ∀ m ∈ n, t.place ≤ m) : Mirrors R F (playTrain t) (playTrain (t.relocate f)) := by
  have hpieces : Mirrors R F (t.pieces.forM (Environment.playPiece t.place t.output))
      ((t.pieces.map id).forM (Environment.playPiece (f t.place) t.output)) :=
    .forM_map fun piece _ => h.playPiece ht t.output piece
  rw [List.map_id] at hpieces
  exact h.within .train ((h.onOutput t.output .pure).bind fun _ => hpieces)

theorem acquireBy {mark mark' : Value → Act Generator PUnit}
    (hmark : ∀ {e e'}, R e e' → ∀ number, e.valueAt [markerName, "marker_num"] = .ok number →
      ∀ name, Mirrors R F (Environment.onOutput name (mark number)) (Environment.onOutput name (mark' number))) :
    Mirrors R F (acquireBy mark) (acquireBy mark') := by
  refine .get_bind fun e e' he => ?_
  simp only [h.valueAt he]
  refine .lift_bind h.fault fun number hnum => (h.lift _).bind fun output => ?_
  cases output with
  | text name => exact hmark he number hnum name
  | tuple items =>
    dsimp only
    cases (Value.tuple items).isSettled <;> exact .fail h.fault _
  | _ => exact .fail h.fault _

theorem repetitions_eq {e e' : Environment} (he : R e e') (count : Count) :
    repetitions e' count = repetitions e count := by
  cases count with
  | literal m => rfl
  | named name => simp only [repetitions, h.valueAt he]

end

variable {acquire acquire' level level' : Act Environment PUnit}

mutual

/-- A command does the same in related environments, if this holds for acquisitions and for zeros. -/
theorem playStatementWith (h : Congruence f n R F) (hacq : Mirrors R F acquire acquire')
    (hlev : Mirrors R F level level') {s : Statement} (hs : ∀ m ∈ n, s.WrittenIn m) :
    Mirrors R F (playStatementWith acquire level s) (playStatementWith acquire' level' (s.relocate f)) := by
  cases s with
  | loop place count body =>
    rw [relocate, Environment.playStatementWith, Environment.playStatementWith]
    refine .get_bind fun e e' he => ?_
    rw [h.repetitions_eq he]
    have hbody := h.playAllWith hacq hlev fun m hm => (hs m hm).2
    exact (h.lift _).bind fun m => mirrors_repeated (h.within .loop (h.within .block hbody)) m
  | pulses trains =>
    rw [relocate, Environment.playStatementWith, Environment.playStatementWith]
    refine (h.within .pulses (.forM_map fun t ht => ?_)).bind fun _ => hlev
    exact h.playTrain fun m hm => hs m hm t ht
  | acquire place =>
    rw [relocate, Environment.playStatementWith, Environment.playStatementWith]
    exact hacq
  | delay place length =>
    rw [relocate, Environment.playStatementWith, Environment.playStatementWith]
    cases length with
    | named name =>
      unfold playStatement
      refine .get_bind fun e e' he => ?_
      rw [h.valueAt he]
      exact (h.lift _).bind fun time => h.onAll (.pause time)
    | literal q =>
      unfold playStatement
      exact h.onAll (.pause _)
  | assign a | declare place kind names =>
    rw [relocate, Environment.playStatementWith, Environment.playStatementWith]
    exact .pure _

theorem playAllWith (h : Congruence f n R F) (hacq : Mirrors R F acquire acquire') (hlev : Mirrors R F level level')
    {ss : List Statement} (hss : ∀ m ∈ n, AllWrittenIn m ss) :
    Mirrors R F (playAllWith acquire level ss) (playAllWith acquire' level' (relocateAll f ss)) := by
  cases ss with
  | nil =>
    rw [relocateAll, Environment.playAllWith, Environment.playAllWith]
    exact .pure _
  | cons s rest =>
    rw [relocateAll, Environment.playAllWith, Environment.playAllWith]
    exact (h.playStatementWith hacq hlev fun m hm => (hss m hm).1).bind fun _ =>
      h.playAllWith hacq hlev fun m hm => (hss m hm).2

end

end Congruence

/-! ### Lasting properties -/

/-- A property that lasts while waveforms grow and problems and missing shapes are noted. -/
structure Lasting (P : Environment → Prop) : Prop where
  update : ∀ e, P e → ∀ stack missingShapes, P { e with stack, missingShapes }
  problem : ∀ message place, Preserves P (addProblem message place)
  onOutput : ∀ name {act}, IsGrowth act → Preserves P (onOutput name act)
  onAll : ∀ {act}, IsGrowth act → Preserves P (onAll act)
  level : Preserves P level

namespace Lasting

variable {P : Environment → Prop} (h : Lasting P)

include h

theorem congruence : Congruence id none (fun e e' => e = e' ∧ P e) (some fun x _ => P x.2) where
  fault := by
    rintro _ ⟨⟩ e e' ⟨-, he⟩ _
    exact he
  kindOf := by
    rintro e _ ⟨rfl, -⟩ _
    rfl
  valueAt := by
    rintro e _ ⟨rfl, -⟩ _
    rfl
  folder := by
    rintro e _ ⟨rfl, -⟩
    rfl
  missingShapes := by
    rintro e _ ⟨rfl, -⟩
    rfl
  stack := by
    rintro e _ ⟨rfl, he⟩ _
    exact ⟨rfl, h.update e he _ e.missingShapes⟩
  note := by
    rintro e _ ⟨rfl, he⟩ _
    exact ⟨rfl, h.update e he e.stack _⟩
  problem message place _ := preserves_iff_mirrors.mp (h.problem message place)
  onOutput name _ hact := preserves_iff_mirrors.mp (h.onOutput name hact.isGrowth)
  onAll hact := preserves_iff_mirrors.mp (h.onAll hact.isGrowth)

theorem within {α : Type} (frame : Frame) {act : Act Environment α} (hact : Preserves P act) :
    Preserves P (within frame act) :=
  preserves_iff_mirrors.mpr (h.congruence.within frame (preserves_iff_mirrors.mp hact))

theorem playAcquisition
    (hmark : ∀ number level name, Preserves P (Environment.onOutput name (Generator.mark number level))) :
    Preserves P playAcquisition :=
  preserves_iff_mirrors.mpr (h.congruence.acquireBy fun _ _ _ _ => preserves_iff_mirrors.mp (hmark _ _ _))

/-- A lasting property is preserved by commands, if it is by what is done at an acquisition. -/
theorem playAllWith {acquire : Act Environment PUnit} (hacq : Preserves P acquire) (ss : List Statement) :
    Preserves P (playAllWith acquire Environment.level ss) := by
  have hss : ∀ m ∈ (none : Option Nat), AllWrittenIn m ss := nofun
  have hplay := h.congruence.playAllWith (preserves_iff_mirrors.mp hacq) (preserves_iff_mirrors.mp h.level) hss
  rw [relocateAll_id] at hplay
  exact preserves_iff_mirrors.mpr hplay

end Lasting

theorem lasting_fixtures (c : Fixtures (Value × Bool)) : Lasting (fixtures manner · = c) where
  update _ he _ _ := he
  problem message place := (keeps_addProblem message place).preserves c
  onOutput name _ hact := (keeps_onOutput name hact.keeps_manner).preserves c
  onAll hact := (keeps_onAll hact.keeps_manner).preserves c
  level := by
    refine (Keeps.get_bind fun e => keeps_onAll (.get_bind fun g => ?_) e).preserves c
    dsimp only
    split
    · rfl
    · rfl

theorem keeps_playTrain (t : Train) : Keeps (fixtures manner) (playTrain t) :=
  fun e => preserves_iff_mirrors.mpr ((lasting_fixtures _).congruence.playTrain nofun) e rfl

theorem keeps_playAll (ss : List Statement) : Keeps (fixtures manner) (playAll ss) := by
  intro e
  rw [← playAllWith_eq ss]
  have hacq := (keeps_playAcquisition Generator.keeps_mark).preserves (fixtures manner e)
  exact (lasting_fixtures _).playAllWith hacq ss e rfl

theorem keeps_playStatement (s : Statement) : Keeps (fixtures manner) (playStatement s) := by
  have hplay := keeps_playAll [s]
  rwa [playAll, playAll, bind_pure_unit] at hplay

/-! ### Whole programs -/

/-- The end of a program: all problems are reported. -/
def close : Act Environment PUnit := do
  let env ← get
  if !env.problems.isEmpty then .fail ⟨.pulse, none, env.reports⟩

def run (b : Block) : Act Environment PUnit := do
  within .block (playAll b)
  close

/-- A program does the same in related environments, if this holds for acquisitions, for zeros and for its end. -/
theorem Congruence.run (h : Congruence f n R F) (hacq : Mirrors R F playAcquisition playAcquisition)
    (hlev : Mirrors R F Environment.level Environment.level) (hclose : Mirrors R F close close) {b : Block}
    (hb : ∀ m ∈ n, ∀ s ∈ b, s.WrittenIn m) : Mirrors R F (run b) (run (b.map (relocate f))) := by
  have hplay := h.playAllWith hacq hlev fun m hm => allWrittenIn_iff.mpr (hb m hm)
  rw [relocateAll_eq_map, playAllWith_eq, playAllWith_eq] at hplay
  exact (h.within .block hplay).bind fun _ => hclose

/-- An environment just before the commands are carried out. -/
def cleared (rehearsal : Bool) (e : Environment) : Environment :=
  { e with rehearsal, missingShapes := [], problems := [] }

theorem perform_eq (b : Block) (rehearsal : Bool) (e : Environment) :
    Program.perform b rehearsal e = (play b >>= fun _ => close) (cleared rehearsal e) :=
  rfl

theorem perform_of_missing (h : e.missing = .ok []) (b : Block) (rehearsal : Bool) :
    Program.perform b rehearsal e = run b (started rehearsal e) := by
  have hplay : play b (cleared rehearsal e) = within .block (playAll b) (started rehearsal e) := by
    change (lift e.missing >>= _) _ = _
    rw [lift_bind_of_ok h]
    rfl
  rw [perform_eq]
  exact Act.bind_congr hplay fun _ _ _ => rfl

/-- What a program says about missing values depends on these values only. -/
theorem perform_of_missing_ne {x : Outcome (List Path)} (h : x ≠ .ok []) (b : Block) (rehearsal : Bool) :
    ∃ f, ∀ e, e.missing = x → Program.perform b rehearsal e = (.error f, cleared rehearsal e) := by
  have hperf {e : Environment} {f : Fault} (hplay : play b (cleared rehearsal e) = (.error f, cleared rehearsal e)) :
      Program.perform b rehearsal e = (.error f, cleared rehearsal e) := by
    rw [perform_eq]
    exact bind_of_error hplay
  have hplay (e : Environment) : play b (cleared rehearsal e) = (lift e.missing >>= _) (cleared rehearsal e) := rfl
  rcases x with f | _ | ⟨path, paths⟩
  · exact ⟨f, fun e he => hperf (by rw [hplay, he]; rfl)⟩
  · exact absurd rfl h
  · exact ⟨.because .badValue _, fun e he => hperf (by rw [hplay, he]; rfl)⟩

theorem map_fresh (gs : List (String × Generator)) (g : Generator) :
    gs.map (fun e => (e.1, g)) = (gs.map (·.1)).map fun name => (name, g) := by
  rw [List.map_map]
  rfl

end Environment

/-! ### Parameters -/

/-- An environment with new values and with another frequency. -/
def Environment.adjusted (settings : List (Path × Value)) (frequency : Value) (e : Environment) : Environment :=
  { e with values := Entries.putAll settings e.values, frequency }

namespace Program

/-- New values for several parameters, one after the other. -/
def setValues (settings : List (Path × Value)) (p : Program) : Program :=
  settings.foldl (fun p e => p.setValue e.1 e.2) p

theorem setFrequency_setValues (settings : List (Path × Value)) (frequency : Value) (p : Program) :
    (p.setValues settings).setFrequency frequency = { p with env := p.env.adjusted settings frequency } := by
  induction settings generalizing p with
  | nil => rfl
  | cons e rest ih => exact ih (p.setValue e.1 e.2)

end Program

end LabBench.Pulse
