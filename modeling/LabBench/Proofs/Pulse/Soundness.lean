import LabBench.Proofs.Pulse.Admission
import LabBench.Proofs.Pulse.Mirroring
import LabBench.Proofs.Text.Fields
/-!
# Accepted pulse programs run without surprises

A program that has been accepted, with a value of the right kind for everything that needs one and
with a quantity as its frequency, looks up only what is there. Its waveforms are generated, or it ends
in a fault that the program itself foresees: a waveform that gets too long, a number of points that
cannot be represented, a shape file that is not one or that is not found. There is one exception. A
shape file may have a field that is too long to be read at all, and this fault is passed on as it is.

## Main results

* `foreseen_of_generate`
-/

namespace LabBench

open Act Generator

/-! ### Waveforms under construction -/

/-- A number that is not accepted, or that is too large. -/
def Fault.IsNumeric (f : Fault) : Prop :=
  f.kind = .badValue ∨ f.kind = .overflow

namespace Generator

def Tuned (g : Generator) : Prop :=
  ∃ q, g.frequency = .quantity q

variable {t : Quantity Float}

theorem numeric_of_samples {g : Generator} (hg : g.Tuned) {f : Fault}
    (h : g.samples (.quantity t) = .error f) : f.IsNumeric := by
  obtain ⟨q, hq⟩ := hg
  rw [samples, hq] at h
  change Value.wholePart (t.magnitude * q.magnitude) = .error f at h
  unfold Value.wholePart at h
  split at h
  · cases h
  · cases h
    dsimp only [Fault.IsNumeric, Fault.plain]
    split
    · exact .inl rfl
    · exact .inr rfl

theorem faults_checkLength (additional : Int) : Faults Tuned Fault.IsNumeric (checkLength additional) := by
  refine .get_bind fun g _ => ?_
  dsimp only
  split
  · exact .fail (.inl rfl)
  · exact .pure _

theorem faults_setNext (point : Float) : Faults Tuned Fault.IsNumeric (setNext point) :=
  (faults_checkLength 1).bind fun _ => .modify fun _ hg => hg

theorem faults_delay (t : Quantity Float) (lessPoints : Int) :
    Faults Tuned Fault.IsNumeric (delay (.quantity t) lessPoints) := by
  refine .get_bind fun g hg => ?_
  refine .lift_bind (fun f => numeric_of_samples hg) fun n _ => ?_
  exact (faults_checkLength _).bind fun _ => .modify fun _ hg => hg

theorem faults_square (amplitude : Float) (t : Quantity Float) :
    Faults Tuned Fault.IsNumeric (square amplitude (.quantity t)) := by
  refine .get_bind fun g _ => ?_
  exact (faults_setNext amplitude).bind fun _ => (faults_delay t 1).bind fun _ => faults_setNext _

theorem numeric_of_rescale {g : Generator} (hg : g.Tuned) {points : Array Float} {amplitude : Float} {f : Fault}
    (h : g.rescale points (.real amplitude) (.quantity t) = .error f) : f.IsNumeric := by
  unfold rescale at h
  split at h
  · cases h
  · rcases Outcome.bind_eq_error.mp h with h | ⟨n, -, h⟩
    · cases h
    · rcases Outcome.bind_eq_error.mp h with h | ⟨n, -, h⟩
      · exact numeric_of_samples hg h
      · split at h
        · cases h
          exact .inl rfl
        · cases h

theorem faults_pulse (points : Array Float) (amplitude : Float) (t : Quantity Float) :
    Faults Tuned Fault.IsNumeric (pulse points (.real amplitude) (.quantity t)) := by
  refine .get_bind fun g hg => ?_
  refine .lift_bind (fun f => numeric_of_rescale hg) fun data _ => ?_
  exact (faults_checkLength _).bind fun _ => .modify fun _ hg => hg

theorem faults_mark {number : Value} (hnum : number.isSettled = true) (level : Value) :
    Faults Tuned Fault.IsNumeric (mark number level) := by
  refine .get_bind fun g hg => ?_
  dsimp only
  split
  · exact .pure _
  · rw [hnum]
    exact .modify fun _ _ => hg

end Generator

namespace Pulse

open Text
open Generator (manner Tuned)

/-! ### Values -/

/-- Whether a value is a quantity, of whatever unit. -/
def isQuantity : Value → Bool
  | .quantity _ => true
  | _ => false

theorem isQuantity_iff {v : Value} : isQuantity v = true ↔ ∃ q, v = .quantity q := by
  cases v <;> simp [isQuantity]

namespace Scheme

/-- Whether a value is the name of a declared output. -/
def isOutput (σ : Scheme) : Value → Bool
  | .text name => σ.kindOf name == some .output
  | _ => false

/-- Whether a value is one for a variable of a kind, or for an attribute of such a variable. -/
def accepts (σ : Scheme) (attributes : List String) (v : Value) : Kind → Bool
  | .int => Environment.isWhole v
  | .delay => isQuantity v
  | .pulse => if attributes = ["shape"] then Environment.isText v else isQuantity v
  | .marker => if attributes = ["output"] then σ.isOutput v else Environment.isWhole v
  | .output => true

theorem isOutput_iff {σ : Scheme} {v : Value} :
    σ.isOutput v = true ↔ ∃ name, v = .text name ∧ σ.kindOf name = some .output := by
  cases v <;> simp [isOutput]

end Scheme

namespace Environment

theorem isText_iff {v : Value} : isText v = true ↔ ∃ s, v = .text s := by
  cases v <;> simp [isText]

/-- Whether there is a value under a path, and a variable takes it. -/
def hasSuitable (e : Environment) : Path → Bool
  | [] => false
  | name :: attributes =>
    match e.kindOf name, Entries.get? (name :: attributes) e.values with
    | some kind, some v => e.scheme.accepts attributes v kind
    | _, _ => false

/-- Everything that needs a value has one of its kind. -/
def Complete (e : Environment) : Prop :=
  ∀ path ∈ e.required.getD [], e.hasSuitable path = true

instance (e : Environment) : Decidable e.Complete :=
  inferInstanceAs (Decidable (∀ path ∈ e.required.getD [], e.hasSuitable path = true))

/-- The faults in which a run may end: numbers that are not accepted or too large, problems of the
program, and a field that is too long, in a file of the folder that is even longer. -/
def Foreseen (folder : Option Folder) (f : Fault) : Prop :=
  f.kind = .badValue ∨ f.kind = .overflow ∨ f.kind = .pulse ∨
    (f.kind = .other ∧ ∃ d, folder = some d ∧ ∃ file ∈ d.files, fieldLimit < file.2.length)

variable {f : Fault}

theorem Foreseen.of_numeric {folder : Option Folder} (h : f.IsNumeric) : Foreseen folder f := by
  rcases h with h | h
  · exact .inl h
  · exact .inr (.inl h)

/-- An environment on which the commands of a program can be carried out. -/
structure Supplied (σ : Scheme) (folder : Option Folder) (e : Environment) : Prop where
  scheme : e.scheme = σ
  folder : e.folder = folder
  complete : e.Complete
  tuned : ∀ g ∈ e.generators, g.2.Tuned

variable {σ : Scheme} {folder : Option Folder} {e : Environment} {act : Act Generator PUnit}

theorem preserves_supplied {α : Type} {act : Act Environment α}
    (h : Keeps (fixtures manner) act) : Preserves (Supplied σ folder) act := by
  intro e he
  have hscheme : (act e).2.scheme = e.scheme := keeps_scheme_of_fixtures h e
  refine ⟨hscheme.trans he.scheme, (congrArg Fixtures.folder (h e)).trans he.folder, ?_, ?_⟩
  · have hdecl : (act e).2.declared = e.declared := congrArg Fixtures.declared (h e)
    have hvals : (act e).2.values = e.values := congrArg Fixtures.values (h e)
    have hrequired : (act e).2.required = e.required := congrArg Fixtures.required (h e)
    intro path hpath
    rw [hrequired] at hpath
    have hsuitable := he.complete path hpath
    cases path with
    | nil => exact hsuitable
    | cons name attributes =>
      rw [hasSuitable, kindOf, hdecl, hvals, hscheme]
      exact hsuitable
  · intro g' hg'
    obtain ⟨g, hg, hsame⟩ := exists_of_fixtures (h e) hg'
    obtain ⟨q, hq⟩ := he.tuned g hg
    exact ⟨q, (congrArg Prod.fst hsame).trans hq⟩

theorem Supplied.exists_value (he : Supplied σ folder e) (hσ : σ.Sound)
    (attributes : List String) {name : String} {kind : Kind} (hkind : σ.kindOf name = some kind)
    (hpath : name :: attributes ∈ requiredOf name kind) :
    ∃ v, e.valueAt (name :: attributes) = .ok v ∧ σ.accepts attributes v kind = true := by
  obtain ⟨paths, hpaths, hall⟩ := hσ.required
  have hscheme := he.scheme
  subst hscheme
  have hsuitable := he.complete (name :: attributes) (by
    rw [show e.required = some paths from hpaths]
    exact hall name kind hkind _ hpath)
  rw [hasSuitable, show e.kindOf name = some kind from hkind] at hsuitable
  cases hget : Entries.get? (name :: attributes) e.values with
  | none =>
    rw [hget] at hsuitable
    cases hsuitable
  | some v =>
    rw [hget] at hsuitable
    exact ⟨v, by rw [valueAt, hget], hsuitable⟩

theorem Supplied.exists_time (he : Supplied σ folder e) (hσ : σ.Sound)
    {name : String} (hkind : σ.kindOf name = some .delay) : ∃ q, e.valueAt [name] = .ok (.quantity q) := by
  obtain ⟨v, hval, hv⟩ := he.exists_value hσ [] hkind (by simp [requiredOf])
  obtain ⟨q, rfl⟩ := isQuantity_iff.mp hv
  exact ⟨q, hval⟩

/-! ### Commands -/

/-- A command that finds what it needs, and leaves it there. -/
abbrev Safe {α : Type} (σ : Scheme) (folder : Option Folder) (act : Act Environment α) : Prop :=
  Faults (Supplied σ folder) (Foreseen folder) act

theorem safe_of_keeps {α : Type} {act : Act Environment α} (hkeeps : Keeps (fixtures manner) act)
    (h : ∀ e, Supplied σ folder e → ∀ f t, act e = (.error f, t) → Foreseen folder f) : Safe σ folder act :=
  fun e he => ⟨fun _ _ ht => (preserves_supplied hkeeps).apply ht he, h e he⟩

theorem safe_onOutput {output : String} (hout : output ∈ σ.outputs) (hkeeps : Keeps manner act)
    (h : Faults Tuned Fault.IsNumeric act) : Safe σ folder (onOutput output act) := by
  refine safe_of_keeps (keeps_onOutput output hkeeps) fun e he f t hfault => ?_
  have hkeys : output ∈ e.generators.map (·.1) := by
    rw [← he.scheme] at hout
    exact hout
  obtain ⟨g, hg⟩ := Entries.get?_of_mem_keys hkeys
  have htuned : g.Tuned := he.tuned (output, g) (Entries.mem_of_get? hg)
  rcases hact : act g with ⟨r, g'⟩
  simp only [onOutput, hg, hact] at hfault
  cases hfault
  exact .of_numeric ((h g htuned).2 f g' hact)

private theorem numeric_of_onEach (h : Faults Tuned Fault.IsNumeric act) {gs : List (String × Generator)}
    (hgs : ∀ g ∈ gs, g.2.Tuned) (hfault : (onEach act gs).1 = .error f) : f.IsNumeric := by
  induction gs with
  | nil => cases hfault
  | cons a rest ih =>
    rw [onEach] at hfault
    rcases hact : act a.2 with ⟨f' | _, g⟩
    · simp only [hact] at hfault
      cases hfault
      exact (h a.2 (hgs a List.mem_cons_self)).2 f g hact
    · simp only [hact] at hfault
      exact ih (fun b hb => hgs b (List.mem_cons_of_mem a hb)) hfault

theorem safe_onAll (hkeeps : Keeps manner act) (h : Faults Tuned Fault.IsNumeric act) : Safe σ folder (onAll act) :=
  safe_of_keeps (keeps_onAll hkeeps) fun _ he _ _ hfault =>
    .of_numeric (numeric_of_onEach h he.tuned (congrArg Prod.fst hfault))

theorem safe_within {act : Act Environment PUnit} (frame : Frame) (h : Safe σ folder act) :
    Safe σ folder (within frame act) := by
  have hframe {f : List Frame → List Frame} : Safe σ folder (modify fun e => { e with stack := f e.stack }) :=
    .modify fun _ he => ⟨he.scheme, he.folder, he.complete, he.tuned⟩
  exact hframe.bind fun _ => h.bind fun a => hframe.bind fun _ => .pure a

theorem safe_addProblem (message : String) (place : Nat) : Safe σ folder (addProblem message place) := by
  refine .get_bind fun e he => .lift_bind (fun f hf => ?_) fun _ _ => ?_
  · unfold locate at hf
    split at hf
    · cases hf
      exact .inl rfl
    · cases hf
  · exact .modify fun _ _ => ⟨he.scheme, he.folder, he.complete, he.tuned⟩

theorem faults_pause (t : Quantity Float) : Faults Tuned Fault.IsNumeric (pause (.quantity t)) :=
  (faults_setNext 0.0).bind fun _ => faults_delay t 1

theorem safe_level : Safe σ folder level := by
  refine .get_bind fun e _ => safe_onAll (.get_bind fun g => ?_) (.get_bind fun g _ => ?_)
  · split <;> rfl
  · dsimp only
    split
    · exact .modify fun _ hg => hg
    · exact .pure _

theorem exists_of_shapeFile {d : Folder} {shape path : String} {lines : List (List Char)}
    (h : Folder.shapeFile d shape = (path, some lines)) : ∃ file ∈ d.files, fileLines file.2.toList = lines := by
  obtain ⟨content, hcont, hlines⟩ := Option.map_eq_some_iff.mp (congrArg Prod.snd h)
  split at hcont
  · cases hcont
  · exact ⟨_, Entries.mem_of_get? hcont, hlines⟩

/-- A shape cannot be loaded if it is not one, or if there is a file with a field that is too long. -/
theorem foreseen_of_loadShape {shape : String} (h : loadShape folder shape = .error f) : Foreseen folder f := by
  unfold loadShape at h
  split at h
  · cases h
    exact .inl rfl
  · split at h
    · cases h
    · rename_i d
      split at h
      · cases h
      · rename_i path lines hfile
        split at h
        · cases h
        · rename_i g hread
          split at h
          · cases h
            exact .inl rfl
          · rename_i hkind
            cases h
            obtain ⟨file, hmem, rfl⟩ := exists_of_shapeFile hfile
            rcases readNumbers_fault hread with hbad | ⟨hoth, hlong⟩
            · simp [hbad] at hkind
            · rw [String.length_toList] at hlong
              exact .inr (.inr (.inr ⟨hoth, d, rfl, file, hmem, hlong⟩))

theorem safe_playShape {output : String} (hout : output ∈ σ.outputs) (place : Nat)
    (name shape : String) (amplitude : Float) (t : Quantity Float) :
    Safe σ folder (playShape place output name shape amplitude (.quantity t)) := by
  refine .get_bind fun e he => .lift_bind (fun f hf => ?_) fun found _ => ?_
  · rw [he.folder] at hf
    exact foreseen_of_loadShape hf
  · cases found with
    | some points => exact safe_onOutput hout (isGrowth_pulse _ _ _).keeps_manner (faults_pulse _ _ _)
    | none =>
      exact (safe_addProblem _ _).bind fun _ => .modify fun _ he => ⟨he.scheme, he.folder, he.complete, he.tuned⟩

theorem safe_playPulse (hσ : σ.Sound) {output name : String} (hout : output ∈ σ.outputs)
    (hkind : σ.kindOf name = some .pulse) (place : Nat) : Safe σ folder (playPulse place output name) := by
  refine .get_bind fun e he => ?_
  obtain ⟨amplitude, hamplitude, ha⟩ :=
    he.exists_value hσ ["amplitude"] hkind (by simp [requiredOf])
  obtain ⟨length, hlen, hl⟩ :=
    he.exists_value hσ ["length"] hkind (by simp [requiredOf])
  obtain ⟨shape, hshape, hs⟩ :=
    he.exists_value hσ ["shape"] hkind (by simp [requiredOf])
  obtain ⟨a, rfl⟩ := isQuantity_iff.mp ha
  obtain ⟨t, rfl⟩ := isQuantity_iff.mp hl
  obtain ⟨s, rfl⟩ := isText_iff.mp hs
  rw [hamplitude, hlen, hshape]
  -- what has been looked up is there, and it is of its kind
  change Safe σ folder (if _ then _ else _)
  split
  · change Safe σ folder (if _ then _ else _)
    split
    · exact safe_onOutput hout (isGrowth_square _ _).keeps_manner (faults_square _ _)
    · exact safe_playShape hout _ _ _ _ _
  · exact .pure _

theorem safe_playPiece (hσ : σ.Sound) {output : String} (hout : output ∈ σ.outputs) (place : Nat)
    {piece : Piece} (hpiece : piece.Fits σ) : Safe σ folder (playPiece place output piece) := by
  have hpause (q : Quantity Float) : Safe σ folder (onOutput output (pause (.quantity q))) :=
    safe_onOutput hout (isGrowth_pause _).keeps_manner (faults_pause q)
  cases piece with
  | delay q => exact hpause q
  | named name =>
    refine .get_bind fun e he => ?_
    have hkindOf : e.kindOf name = σ.kindOf name := by rw [← he.scheme]; rfl
    rcases hpiece with hkind | hkind
    · rw [hkindOf, hkind]
      obtain ⟨q, hval⟩ := he.exists_time hσ hkind
      dsimp only
      rw [hval]
      exact hpause q
    · rw [hkindOf, hkind]
      exact safe_playPulse hσ hout hkind place

theorem safe_playTrain (hσ : σ.Sound) {t : Train} (ht : t.Fits σ) : Safe σ folder (playTrain t) :=
  safe_within .train ((safe_onOutput ht.output (.pure _) (.pure _)).bind fun _ =>
    .forM fun piece hpiece => safe_playPiece hσ ht.output t.place (ht.pieces piece hpiece))

theorem safe_playAcquisition (hσ : σ.Sound) (hmarker : σ.kindOf markerName = some .marker) :
    Safe σ folder playAcquisition := by
  refine .get_bind fun e he => ?_
  obtain ⟨number, hnum, hwhole⟩ :=
    he.exists_value hσ ["marker_num"] hmarker (by simp [requiredOf])
  obtain ⟨output, hout, hisOutput⟩ :=
    he.exists_value hσ ["output"] hmarker (by simp [requiredOf])
  obtain ⟨name, rfl, hkind⟩ := Scheme.isOutput_iff.mp hisOutput
  rw [hnum, hout]
  have hsettle : number.isSettled = true := by
    cases number with
    | list items | tuple items | table entries => cases hwhole
    | _ => rfl
  exact safe_onOutput (hσ.output name hkind) (keeps_mark _ _) (faults_mark hsettle _)

theorem safe_repeated {act : Act Environment PUnit} (h : Safe σ folder act) (n : Nat) :
    Safe σ folder (repeated act n) := by
  induction n with
  | zero => exact .pure _
  | succ n ih => exact h.bind fun _ => ih

theorem Supplied.exists_repetitions (he : Supplied σ folder e) (hσ : σ.Sound)
    {count : Count} (hcnt : count.Fits σ) : ∃ n, repetitions e count = .ok n := by
  cases count with
  | literal n => exact ⟨_, rfl⟩
  | named name =>
    obtain ⟨v, hval, hwhole⟩ := he.exists_value hσ [] hcnt (by simp [requiredOf])
    obtain ⟨n, hn⟩ := Option.isSome_iff_exists.mp hwhole
    refine ⟨n.toNat, ?_⟩
    simp only [repetitions, hval, bind, Except.bind, hn]

mutual

theorem safe_playStatement (hσ : σ.Sound) (s : Statement) (hs : s.Fits σ) : Safe σ folder (playStatement s) := by
  have hpause (q : Quantity Float) : Safe σ folder (onAll (pause (.quantity q))) :=
    safe_onAll (isGrowth_pause _).keeps_manner (faults_pause q)
  cases s with
  | acquire place =>
    rw [Statement.Fits] at hs
    rw [playStatement]
    exact safe_playAcquisition hσ hs
  | delay place length =>
    rw [Statement.Fits] at hs
    cases length with
    | literal q =>
      unfold playStatement
      exact hpause q
    | named name =>
      unfold playStatement
      refine .get_bind fun e he => ?_
      obtain ⟨q, hval⟩ := he.exists_time hσ hs
      rw [hval]
      exact hpause q
  | pulses trains =>
    rw [Statement.Fits] at hs
    rw [playStatement]
    exact (safe_within .pulses (.forM fun t ht => safe_playTrain hσ (hs t ht))).bind fun _ => safe_level
  | loop place count body =>
    rw [Statement.Fits] at hs
    rw [playStatement]
    refine .get_bind fun e he => ?_
    obtain ⟨n, hn⟩ := he.exists_repetitions hσ hs.1
    rw [hn]
    exact safe_repeated (safe_within .loop (safe_within .block (safe_playAll hσ body hs.2))) n
  | assign a | declare place kind names => exact .pure _

theorem safe_playAll (hσ : σ.Sound) (ss : List Statement) (hss : FitAll σ ss) : Safe σ folder (playAll ss) := by
  cases ss with
  | nil =>
    rw [playAll]
    exact .pure _
  | cons s rest =>
    rw [FitAll] at hss
    rw [playAll]
    exact (safe_playStatement hσ s hss.1).bind fun _ => safe_playAll hσ rest hss.2

end

theorem keeps_scheme_play (block : Block) : Keeps scheme (play block) := by
  intro e
  rcases play_cases e with ⟨f, -, hplay⟩ | hplay
  · rw [hplay]
  · rw [hplay]
    have hblk : Keeps scheme (within .block (playAll block)) :=
      keeps_scheme_of_fixtures (keeps_within .block (keeps_playAll block))
    rw [hblk]
    simp only [scheme, List.map_map]
    rfl

theorem foreseen_of_play {block : Block} {e' : Environment}
    (h : play block e = (.error f, e')) (hσ : e.scheme.Sound) (hblk : FitAll e.scheme block)
    (hcomplete : e.Complete) (hfreq : ∃ q, e.frequency = .quantity q) : Foreseen e.folder f := by
  rcases play_cases e with ⟨g, hg, hplay⟩ | hplay
  · rw [hplay] at h
    cases h
    rcases hg with hnone | hkind
    -- the needed values are known since the declarations have been read
    · obtain ⟨paths, hpaths, -⟩ := hσ.required
      rw [scheme, hnone] at hpaths
      cases hpaths
    · exact .inl hkind
  · rw [hplay] at h
    refine (safe_within .block (safe_playAll hσ block hblk) _ ?_).2 f e' h
    refine ⟨?_, rfl, hcomplete, fun g hg => ?_⟩
    · simp only [scheme, List.map_map]
      rfl
    · obtain ⟨_, -, rfl⟩ := List.mem_map.mp hg
      exact hfreq

end Environment

namespace Program

open Environment

/-- A program that comes from an accepted source or block. After that its values and its frequency may
have been set, its waveforms may have been generated, and it may be the copy on which resources act. -/
inductive Accepted : Program → Prop
  | ofSource {source : String} {folder : Option Folder} {filename : String} {p : Program}
      (h : Program.ofSource source folder filename = .ok p) : Accepted p
  | ofBlock {start : Environment} {block : Block} {delay : Quantity Float} {filename : String}
      {p : Program} (h : Program.ofBlock start block delay filename = .ok p) : Accepted p
  | setValue {p : Program} (h : Accepted p) (path : Path) (v : Value) : Accepted (p.setValue path v)
  | setFrequency {p : Program} (h : Accepted p) (v : Value) : Accepted (p.setFrequency v)
  | generate {p : Program} (h : Accepted p) (rehearsal : Bool) : Accepted (generate rehearsal p).2
  | detached {p p' : Program} (h : Accepted p) (hcopy : p.detached = .ok p') : Accepted p'

/-- A program with a value of the right kind for everything that needs one, and with a quantity as its
sampling frequency. -/
structure Ready (p : Program) : Prop where
  complete : p.env.Complete
  frequency : isQuantity p.env.frequency = true

instance (p : Program) : Decidable p.Ready :=
  decidable_of_iff (p.env.Complete ∧ isQuantity p.env.frequency = true)
    ⟨fun h => ⟨h.1, h.2⟩, fun h => ⟨h.complete, h.frequency⟩⟩

theorem keeps_scheme_perform (block : Block) (rehearsal : Bool) : Keeps scheme (perform block rehearsal) := by
  refine Keeps.bind (.modify fun e => ?_) fun _ =>
    (keeps_scheme_play block).bind fun _ => .get_bind fun e => ?_
  · rfl
  · split
    · rfl
    · rfl

variable {p : Program}

theorem fits_of_accepted (h : p.Accepted) : p.Fits := by
  induction h with
  | ofSource h =>
    obtain ⟨block, -, h⟩ := Outcome.bind_eq_ok.mp h
    obtain ⟨hertz, -, h⟩ := Outcome.bind_eq_ok.mp h
    obtain ⟨noDelay, -, h⟩ := Outcome.bind_eq_ok.mp h
    exact fits_of_ofBlock h
  | ofBlock h => exact fits_of_ofBlock h
  | setValue _ path v ih | setFrequency _ v ih => exact ⟨ih.sound, ih.block⟩
  | @generate p _ rehearsal ih =>
    have hscheme : (generate rehearsal p).2.env.scheme = p.env.scheme := keeps_scheme_perform p.block rehearsal p.env
    exact ⟨hscheme ▸ ih.sound, hscheme ▸ ih.block⟩
  | detached _ hcopy ih =>
    obtain ⟨values, -, hcopy⟩ := Outcome.bind_eq_ok.mp hcopy
    obtain ⟨frequency, -, hcopy⟩ := Outcome.bind_eq_ok.mp hcopy
    cases hcopy
    exact ⟨ih.sound, ih.block⟩

theorem foreseen_of_perform (hp : p.Fits) (hready : p.Ready) {rehearsal : Bool}
    {f : Fault} {e' : Environment} (h : perform p.block rehearsal p.env = (.error f, e')) :
    Foreseen p.env.folder f := by
  change (play p.block >>= _) { p.env with rehearsal, missingShapes := [], problems := [] } = _ at h
  rcases hplay : play p.block { p.env with rehearsal, missingShapes := [], problems := [] } with
    ⟨g | u, t⟩
  · rw [bind_of_error hplay] at h
    cases h
    have hforeseen := foreseen_of_play hplay hp.sound hp.block hready.complete (isQuantity_iff.mp hready.frequency)
    exact hforeseen
  · rw [bind_of_ok hplay, get_bind] at h
    split at h
    · cases h
      exact .inr (.inr (.inl rfl))
    · cases h

/-- The waveforms of an accepted program that has all its values are generated, or there is a fault
that the program foresees: no variable, value or output is looked for in vain, and none is taken for
what it is not. -/
theorem foreseen_of_generate {p p' : Program} (hp : p.Accepted) (hready : p.Ready) (rehearsal : Bool)
    {f : Fault} (h : generate rehearsal p = (.error f, p')) : Foreseen p.env.folder f := by
  unfold generate at h
  rcases hperform : perform p.block rehearsal p.env with ⟨g | u, e'⟩
  · rw [hperform] at h
    cases h
    exact foreseen_of_perform (fits_of_accepted hp) hready hperform
  · rw [hperform] at h
    cases h

/-! ### A sample -/

/-- A program with a variable of every kind, an acquisition and a loop. -/
def sampleBlock : Block :=
  [.declare 0 .int [.plain 0 "n"], .declare 0 .output [.plain 0 "a"],
    .declare 0 .pulse [.plain 0 "p"], .declare 0 .delay [.plain 0 "d"], .acquire 0,
    .loop 0 (.named "n") [.delay 0 (.named "d"), .pulses [⟨0, [.named "d", .named "p"], "a"⟩]]]

def sampleQuantity : Quantity Float :=
  { magnitude := 2.0, dimension := .pure, units := "", scale := .whole 0 }

/-- The sample with its values. There is no folder in which the shape of its pulse could be found. -/
def sample : Outcome Program := do
  let p ← Program.ofBlock { source := "", frequency := .none } sampleBlock sampleQuantity
  return sampleValues.foldl (fun p entry => p.setValue entry.1 entry.2) p
    |>.setFrequency (.quantity sampleQuantity)
where
  sampleValues : List (Path × Value) :=
    [(["n"], .int 2), (["d"], .quantity sampleQuantity),
      (["p", "amplitude"], .quantity sampleQuantity), (["p", "length"], .quantity sampleQuantity),
      (["p", "shape"], .text "bump"), ([markerName, "marker_num"], .int 1),
      ([markerName, "output"], .text "a")]

theorem accepted_foldl_setValue (hp : p.Accepted) (values : List (Path × Value)) :
    (values.foldl (fun p entry => p.setValue entry.1 entry.2) p).Accepted := by
  induction values generalizing p with
  | nil => exact hp
  | cons entry rest ih => exact ih (hp.setValue entry.1 entry.2)

theorem accepted_sample (h : sample = .ok p) : p.Accepted := by
  obtain ⟨p₀, h₀, h⟩ := Outcome.bind_eq_ok.mp h
  cases h
  exact (accepted_foldl_setValue (.ofBlock h₀) _).setFrequency _

/-- The sample is accepted and ready, and ends in a foreseen fault since there is no file. -/
theorem sample_foreseen : ∃ p f p', sample = .ok p ∧ p.Accepted ∧ p.Ready ∧
    generate false p = (.error f, p') ∧ Foreseen p.env.folder f := by
  have hfails : sample.toOption.any (fun p => decide p.Ready && !(generate false p).1.isOk) = true := by
    decide +kernel
  rcases hsample : sample with _ | p
  · rw [hsample] at hfails
    cases hfails
  · rw [hsample] at hfails
    obtain ⟨hready, hnotOk⟩ := Bool.and_eq_true_iff.mp hfails
    have hready : p.Ready := of_decide_eq_true hready
    rcases hrun : generate false p with ⟨f | waveforms, p'⟩
    · exact ⟨p, f, p', rfl, accepted_sample hsample, hready, hrun,
        foreseen_of_generate (accepted_sample hsample) hready false hrun⟩
    · rw [hrun] at hnotOk
      cases hnotOk

end Program

end Pulse

end LabBench
