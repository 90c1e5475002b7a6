import LabBench.Proofs.Pulse.Assigning
/-!
# Which pulse programs are accepted

A program passes all three checks exactly if it is admissible. Then its environment is known; otherwise the checks end
with reports of what is wrong, and never with another fault.
-/

namespace LabBench.Pulse

open Act Statement Announcement Entries List

namespace Environment

variable {n : Nat} {sure : Prop} {e : Environment}

/-! ### Commands -/

theorem verdict_expectKind {name : String} {kinds : List Kind} {otherwise : String} {place : Nat}
    (hplace : sure → place ≤ e.source.length) :
    Verdict sure (expectKind name kinds otherwise place) e (∃ kind ∈ kinds, e.scheme.kindOf name = some kind) e := by
  refine verdict_get_bind ?_
  have hscheme : e.scheme.kindOf name = e.kindOf name := rfl
  rw [hscheme]
  cases hkind : e.kindOf name with
  | none => exact (verdict_addProblem _ _ hplace).imp (by simp) fun _ => rfl
  | some kind =>
    by_cases hmem : kind ∈ kinds
    · dsimp only
      rw [if_neg (by simpa using hmem)]
      exact (Verdict.pure e).imp (by simp [hmem]) fun _ => rfl
    · dsimp only
      rw [if_pos (by simpa using hmem)]
      exact (verdict_addProblem _ _ hplace).imp (by simp [hmem]) fun _ => rfl

theorem exists_hasUnits (q : Quantity Float) : ∃ isTime, q.hasUnits "s" = .ok isTime := by
  have hsnd : (Quantity.make (Magnitude.ofInt 1 : Float) "s").isOk = true := by decide +kernel
  obtain ⟨one, hone⟩ := Outcome.exists_of_isOk hsnd
  refine ⟨q.sameDimension one, ?_⟩
  rw [Quantity.hasUnits, hone]
  rfl

theorem verdict_expectTime {q : Quantity Float} {place : Nat} (hplace : sure → place ≤ e.source.length) :
    Verdict sure (expectTime q place) e (q.hasUnits "s" = .ok true) e := by
  obtain ⟨isTime, hunits⟩ := exists_hasUnits q
  have hstep : expectTime q place e = (if (!isTime) = true then addProblem "Delay must be a time value" place
      else pure ⟨⟩) e := lift_bind_of_ok hunits _ e
  rw [hunits]
  refine Verdict.congr ?_ hstep
  cases isTime with
  | true => exact (Verdict.pure e).imp (by simp) fun _ => rfl
  | false => exact (verdict_addProblem _ _ hplace).imp (by simp) fun _ => rfl

theorem verdict_checkPiece {place : Nat} (hplace : sure → place ≤ e.source.length) (piece : Piece) :
    Verdict sure (checkPiece place piece) e (piece.Fits e.scheme ∧ piece.IsTime) e := by
  cases piece with
  | named name =>
    refine (verdict_expectKind hplace).imp ?_ fun _ => rfl
    simp [Piece.Fits, Piece.IsTime]
  | delay q =>
    refine (verdict_expectTime hplace).imp ?_ fun _ => rfl
    simp [Piece.Fits, Piece.IsTime]

theorem verdict_checkTrain {t : Train} (ht : sure → t.place ≤ e.source.length) :
    Verdict sure (checkTrain t) e (t.Fits e.scheme ∧ ∀ piece ∈ t.pieces, piece.IsTime) e := by
  have hpieces (e' : Environment) (hsame : e'.surroundings = e.surroundings) :
      Verdict sure (within .train (t.pieces.forM (checkPiece t.place))) e'
        (∀ piece ∈ t.pieces, piece.Fits e'.scheme ∧ piece.IsTime) e' := by
    have hplace : sure → t.place ≤ e'.source.length := source_eq hsame ▸ ht
    have heach := verdict_forM (e := { e' with stack := .train :: e'.stack })
      fun piece (_ : piece ∈ t.pieces) e'' hsame' => verdict_checkPiece (e := e'') (source_eq hsame' ▸ hplace) piece
    exact heach.within
  have hfits : (t.Fits e.scheme ∧ ∀ piece ∈ t.pieces, piece.IsTime) ↔
      t.output ∈ e.generators.map (·.1) ∧ ∀ piece ∈ t.pieces, piece.Fits e.scheme ∧ piece.IsTime := by
    constructor
    · rintro ⟨⟨hout, hpieces⟩, htimes⟩
      exact ⟨hout, fun piece hpiece => ⟨hpieces piece hpiece, htimes piece hpiece⟩⟩
    · rintro ⟨hout, hboth⟩
      exact ⟨⟨hout, fun piece hpiece => (hboth piece hpiece).1⟩, fun piece hpiece => (hboth piece hpiece).2⟩
  refine verdict_get_bind ?_
  rw [hfits]
  by_cases hhas : has t.output e.generators = true
  · rw [if_neg (by simp [hhas])]
    exact (hpieces e rfl).imp (and_iff_right (has_iff_mem_keys.mp hhas)) fun _ => rfl
  · rw [if_pos (by simpa using hhas)]
    have hmem : t.output ∉ e.generators.map (·.1) := fun hmem => hhas (has_iff_mem_keys.mpr hmem)
    refine ((verdict_addProblem _ e ht).bind hpieces).imp ?_ fun _ => rfl
    exact iff_of_false (fun h => hmem h.1) fun h => h.1

/-- The rules for some commands: they fit, and there is at most one acquisition. -/
def Performable (ss : List Statement) (e : Environment) : Prop :=
  (∀ s ∈ ss, s.FitsAlone e.scheme) ∧ e.acquisition.toNat + ss.countP isAcquisition ≤ 1

/-- The environment after some commands have been checked. -/
def noting (ss : List Statement) (e : Environment) : Environment :=
  { e with acquisition := e.acquisition || ss.any isAcquisition }

theorem noting_append (ss ts : List Statement) (e : Environment) : noting (ss ++ ts) e = noting ts (noting ss e) := by
  simp [noting, Bool.or_assoc]

theorem noting_eq_self {ss : List Statement} (h : ∀ s ∈ ss, s.isAcquisition = false) (e : Environment) :
    noting ss e = e := by
  have hany : ss.any isAcquisition = false := by simpa using h
  rw [noting, hany, Bool.or_false]

theorem performable_append_iff {ss ts : List Statement} :
    Performable (ss ++ ts) e ↔ Performable ss e ∧ Performable ts (noting ss e) := by
  have hscheme : (noting ss e).scheme = e.scheme := rfl
  have hacq : (noting ss e).acquisition = (e.acquisition || ss.any isAcquisition) := rfl
  simp only [Performable, hscheme, hacq, forall_mem_append, countP_append]
  rw [and_and_and_comm]
  refine and_congr Iff.rfl ?_
  by_cases hnone : ss.countP isAcquisition = 0
  · have hany : ss.any isAcquisition = false := by simpa [countP_eq_zero] using hnone
    rw [hany, Bool.or_false]
    omega
  · have hany : ss.any isAcquisition = true := by simpa [countP_eq_zero] using hnone
    rw [hany, Bool.or_true, Bool.toNat_true]
    omega

theorem performable_nil (e : Environment) : Performable [] e :=
  ⟨by simp, by simpa using Bool.toNat_le e.acquisition⟩

theorem performable_singleton_iff {s : Statement} (h : s.isAcquisition = false) :
    Performable [s] e ↔ s.FitsAlone e.scheme := by
  have hcnt : e.acquisition.toNat ≤ 1 := Bool.toNat_le e.acquisition
  simp [Performable, h, hcnt]

mutual

theorem verdict_checkIn {e : Environment} {s : Statement} (hs : sure → s.WrittenIn n) (hn : n ≤ e.source.length) :
    Verdict sure (checkIn s) e (Performable (s :: s.inside) e) (noting (s :: s.inside) e) := by
  cases s with
  | acquire place =>
    rw [WrittenIn] at hs
    rw [checkIn]
    refine verdict_get_bind ?_
    cases hacq : e.acquisition with
    | true =>
      refine (verdict_addProblem _ _ fun h => (hs h).trans hn).imp (iff_of_false ?_ id) fun _ => rfl
      simp [Performable, inside, isAcquisition, hacq]
    | false =>
      refine (verdict_modify rfl rfl).imp ?_ fun _ => ?_
      · simp [Performable, inside, isAcquisition, FitsAlone, hacq]
      · simp [noting, inside, isAcquisition]
  | delay place length =>
    rw [WrittenIn] at hs
    have hself : noting [.delay place length] e = e := noting_eq_self (by simp [isAcquisition]) e
    rw [inside, hself, performable_singleton_iff rfl]
    cases length with
    | named name =>
      refine (verdict_expectKind fun h => (hs h).trans hn).imp ?_ fun _ => rfl
      simp [FitsAlone, Length.Fits, Length.IsTime]
    | literal q =>
      refine (verdict_expectTime fun h => (hs h).trans hn).imp ?_ fun _ => rfl
      simp [FitsAlone, Length.Fits, Length.IsTime]
  | pulses trains =>
    rw [WrittenIn] at hs
    rw [checkIn]
    have hself : noting [.pulses trains] e = e := noting_eq_self (by simp [isAcquisition]) e
    rw [inside, hself, performable_singleton_iff rfl]
    have heach := verdict_forM (e := { e with stack := .pulses :: e.stack })
      fun t (ht : t ∈ trains) e' hsame => verdict_checkTrain (e := e') fun h => source_eq hsame ▸ (hs h t ht).trans hn
    exact heach.within.imp Iff.rfl fun _ => rfl
  | loop place count body =>
    rw [WrittenIn] at hs
    have hbody (e' : Environment) (hsame : e'.surroundings = e.surroundings) :
        Verdict sure (within .loop (within .block (checkInAll body))) e' (Performable (allInside body) e')
          (noting (allInside body) e') := by
      have hin := verdict_checkInAll (e := { e' with stack := .block :: .loop :: e'.stack }) (fun h => (hs h).2)
        (source_eq hsame ▸ hn)
      exact hin.within.within.imp Iff.rfl fun _ => rfl
    have hself : noting [.loop place count body] e = e := noting_eq_self (by simp [isAcquisition]) e
    rw [inside, ← singleton_append, performable_append_iff, noting_append, hself, performable_singleton_iff rfl]
    cases count with
    | named name =>
      unfold checkIn
      refine ((verdict_expectKind fun h => (hs h).1.trans hn).bind hbody).imp ?_ fun _ => rfl
      simp [FitsAlone, Count.Fits]
    | literal m =>
      unfold checkIn
      refine ((Verdict.pure e).bind hbody).imp ?_ fun _ => rfl
      simp [FitsAlone, Count.Fits]
  | assign a | declare place kind names =>
    refine (Verdict.pure e).imp ?_ fun _ => noting_eq_self (by simp [inside, isAcquisition]) e
    rw [inside, performable_singleton_iff rfl]
    simp [FitsAlone]

theorem verdict_checkInAll {e : Environment} {ss : List Statement} (hss : sure → AllWrittenIn n ss)
    (hn : n ≤ e.source.length) :
    Verdict sure (checkInAll ss) e (Performable (allInside ss) e) (noting (allInside ss) e) := by
  cases ss with
  | nil =>
    rw [checkInAll]
    exact (Verdict.pure e).imp (by simp [allInside, performable_nil]) fun _ => by simp [allInside, noting]
  | cons s rest =>
    rw [AllWrittenIn] at hss
    rw [checkInAll]
    have hrest (e' : Environment) (hsame : e'.surroundings = e.surroundings) :=
      verdict_checkInAll (e := e') (fun h => (hss h).2) (source_eq hsame ▸ hn)
    rw [allInside, ← cons_append, performable_append_iff, noting_append]
    exact (verdict_checkIn (fun h => (hss h).1) hn).bind hrest

end

mutual

theorem fits_of_fitsAlone {σ : Scheme} {s : Statement} (h : ∀ t ∈ s :: s.inside, t.FitsAlone σ)
    (hmarker : s.acquires = true → σ.kindOf markerName = some .marker) : s.Fits σ := by
  cases s with
  | acquire place => exact hmarker rfl
  | delay place length => exact (h _ mem_cons_self).1
  | pulses trains => exact fun t ht => (h _ mem_cons_self t ht).1
  | loop place count body =>
    exact ⟨h _ mem_cons_self, fitAll_of_fitsAlone (fun t ht => h t (mem_cons_of_mem _ ht)) hmarker⟩
  | assign a | declare place kind names => trivial

theorem fitAll_of_fitsAlone {σ : Scheme} {ss : List Statement} (h : ∀ t ∈ allInside ss, t.FitsAlone σ)
    (hmarker : anyAcquires ss = true → σ.kindOf markerName = some .marker) : FitAll σ ss := by
  cases ss with
  | nil => trivial
  | cons s rest =>
    rw [allInside, ← cons_append, forall_mem_append] at h
    rw [anyAcquires] at hmarker
    exact ⟨fits_of_fitsAlone h.1 fun hs => hmarker (by rw [hs, Bool.true_or]),
      fitAll_of_fitsAlone h.2 fun hrest => hmarker (by rw [hrest, Bool.or_true])⟩

end

/-! ### Reports -/

theorem reports_ne_nil (h : e.problems ≠ []) : e.reports ≠ [] := by
  obtain ⟨problem, rest, hprob⟩ := exists_cons_of_ne_nil h
  rw [reports, hprob, eraseDups_cons]
  intro hnil
  have hlen := congrArg length hnil
  simp at hlen

/-- Nothing is known yet apart from the source, the sampling frequency and the folder of the shapes. -/
structure IsBlank (e : Environment) : Prop where
  stack : e.stack = []
  declared : e.declared = []
  values : e.values = []
  acquisition : e.acquisition = false
  problems : e.problems = []
  generators : e.generators = []

/-- The environment in which the checks of a source start. -/
def blank (source : String) (frequency : Value) (folder : Option Folder) : Environment :=
  { source, frequency, folder }

theorem isBlank_blank (source : String) (frequency : Value) (folder : Option Folder) :
    (blank source frequency folder).IsBlank :=
  ⟨rfl, rfl, rfl, rfl, rfl, rfl⟩

end Environment

/-! ### All checks -/

namespace Block

open Environment

/-- The environment once the declarations have been read. -/
def outset (b : Block) (start : Environment) : Environment :=
  { start with
    declared := b.kinds
    generators := b.outputs.map fun name => (name, .fresh start.frequency false)
    required := some b.needed }

/-- The environment once all checks have passed. -/
def environment (b : Block) (start : Environment) : Environment :=
  noting (allInside b) (having b.settings (b.outset start))

theorem nodup_outputs (b : Block) : b.outputs.Nodup := by
  have hkeys : (b.kinds.map (·.1)).Nodup := nodup_keys_ofList _
  have houts : b.outputs = (b.kinds.filter fun e => e.2 = .output).map (·.1) := by
    rw [outputs, ← filterMap_eq_map, filterMap_filter]
    refine filterMap_congr fun e _ => ?_
    simp
  rw [houts]
  exact hkeys.sublist (filter_sublist.map _)

theorem foldl_put_outputs (b : Block) (g : Generator) :
    b.outputs.foldl (fun gs name => put name g gs) [] = b.outputs.map fun name => (name, g) := by
  have hkeys : ((b.outputs.map fun name => (name, g)).map (·.1)).Nodup := by
    simpa [Function.comp_def] using b.nodup_outputs
  rw [← ofList_eq_self hkeys, ofList, foldl_map]

theorem prepared_eq_outset {b : Block} {start : Environment} (h : start.generators = []) :
    prepared { start with declared := b.kinds } = b.outset start := by
  simp only [prepared, outset, h]
  rw [← foldl_put_outputs]
  rfl

end Block

namespace Program

open Environment

variable {b : Block} {start : Environment} {stage : Act Environment PUnit}

/-- Whatever the environment in which the checks start, an accepted program fits its variables. -/
theorem fits_of_ofBlock {delay : Quantity Float} {filename : String} {p : Program}
    (h : ofBlock start b delay filename = .ok p) : p.Fits := by
  unfold ofBlock at h
  rcases hstages : inspect b start with ⟨f | u, e⟩
  · rw [hstages] at h
    cases h
  · rw [hstages] at h
    cases h
    obtain ⟨_, t₁, h₁, hstages⟩ := bind_eq_ok.mp hstages
    obtain ⟨_, t₂, h₂, h₃⟩ := bind_eq_ok.mp hstages
    obtain ⟨hsound, hmarker⟩ := sound_of_readDeclarations (checked_eq_ok h₁).1
    -- the later stages leave the scheme alone, so all of them speak about the same one
    have hvals : t₂.scheme = t₁.scheme := (keeps_scheme_within (keeps_assignInAll b) .block).apply (checked_eq_ok h₂).1
    obtain ⟨h₃, hnone⟩ := checked_eq_ok h₃
    have hall : Verdict False (checkInAll b) _ _ _ :=
      verdict_checkInAll (e := { t₂ with stack := .block :: t₂.stack }) (n := 0) False.elim (Nat.zero_le _)
    obtain ⟨-, -, hpass, hfail⟩ := hall.within.2 e h₃
    have hrules := not_not.mp fun hunmet => hfail hunmet hnone
    have hscheme : e.scheme = t₁.scheme := by rw [hpass hrules]; exact hvals
    refine ⟨hscheme ▸ hsound, fitAll_of_fitsAlone ?_ (hscheme ▸ hmarker)⟩
    rw [hscheme, ← hvals]
    exact hrules.1

theorem checked_of_ok {e t : Environment} (h : stage e = (.ok ⟨⟩, t))
    (hnone : t.problems = []) : checked stage e = (.ok ⟨⟩, t) := by
  rw [checked, bind_of_ok h, get_bind, if_neg (by simp [hnone])]
  rfl

/-- A check that has failed, with reports of what is wrong. -/
def Rejects (act : Act Environment PUnit) (e : Environment) : Prop :=
  ∃ reports t, reports ≠ [] ∧ act e = (.error ⟨.pulseSyntax, none, reports⟩, t)

theorem rejects_checked {e t : Environment} (h : stage e = (.ok ⟨⟩, t))
    (hprob : t.problems ≠ []) : Rejects (checked stage) e := by
  refine ⟨t.reports, t, reports_ne_nil hprob, ?_⟩
  rw [checked, bind_of_ok h, get_bind, if_pos (by simpa using hprob)]
  rfl

theorem Rejects.bind {act : Act Environment PUnit} {e : Environment} (h : Rejects act e)
    (f : PUnit → Act Environment PUnit) : Rejects (act >>= f) e := by
  obtain ⟨reports, t, hreps, hact⟩ := h
  exact ⟨reports, t, hreps, bind_of_error hact⟩

theorem rejects_bind_of_ok {act : Act Environment PUnit} {e t : Environment} (h : act e = (.ok ⟨⟩, t))
    {f : PUnit → Act Environment PUnit} (hf : Rejects (f ⟨⟩) t) : Rejects (act >>= f) e := by
  obtain ⟨reports, t', hreps, hact⟩ := hf
  exact ⟨reports, t', hreps, (bind_of_ok h).trans hact⟩

theorem checked_cases {e after : Environment} {rules : Prop}
    (h : Verdict True stage e rules after) (hnone : after.problems = []) :
    rules ∧ checked stage e = (.ok ⟨⟩, after) ∨ ¬rules ∧ Rejects (checked stage) e := by
  obtain ⟨t, hstage⟩ := h.1 trivial
  obtain ⟨-, -, hpass, hfail⟩ := h.2 t hstage
  by_cases hrules : rules
  · obtain rfl := hpass hrules
    exact .inl ⟨hrules, checked_of_ok hstage hnone⟩
  · exact .inr ⟨hrules, rejects_checked hstage (hfail hrules)⟩

variable (hstart : start.IsBlank)

include hstart

theorem admissible_iff : b.Admissible ↔
    ((∀ s ∈ b, ∀ t ∈ s.inside, t.declares = false) ∧ b.announcements.Pairwise Admits) ∧
      ((∀ s ∈ b, ∀ t ∈ s.inside, t.assigns = false) ∧ Assignable b.needed b.assignments (b.outset start)) ∧
      Performable (allInside b) (having b.settings (b.outset start)) := by
  have hscheme : (having b.settings (b.outset start)).scheme = b.scheme := by
    simp [Environment.scheme, having, Block.outset, Block.scheme, Function.comp_def]
  have hacq : (having b.settings (b.outset start)).acquisition = false := hstart.acquisition
  have hunasg (path : Path) : ¬(b.outset start).isAssigned path = true := by
    simp [isAssigned, Block.outset, hstart.values, get?]
  simp only [Performable, hscheme, hacq, Bool.toNat_false, Nat.zero_add]
  constructor
  · rintro ⟨hann, ⟨htargets, hsuits, hdist⟩, ⟨hin, hfits, hcnt⟩⟩
    exact ⟨⟨fun s hs t ht => (hin s hs t ht).1, hann⟩, ⟨fun s hs t ht => (hin s hs t ht).2,
      htargets, hsuits, fun x _ => hunasg x.1, hdist⟩, hfits, hcnt⟩
  · rintro ⟨⟨hdecl, hann⟩, ⟨hassigns, htargets, hsuits, -, hdist⟩, hfits, hcnt⟩
    exact ⟨hann, ⟨htargets, hsuits, hdist⟩, ⟨fun s hs t ht => ⟨hdecl s hs t ht, hassigns s hs t ht⟩, hfits, hcnt⟩⟩

variable (hb : ∀ s ∈ b, s.WrittenIn start.source.length)

include hb

/-- The first check: all variables are new, and they are declared at the top level. -/
theorem checked_readDeclarations : ((∀ s ∈ b, ∀ t ∈ s.inside, t.declares = false) ∧ b.announcements.Pairwise Admits) ∧
        checked (readDeclarations b) start = (.ok ⟨⟩, b.outset start) ∨
      ¬((∀ s ∈ b, ∀ t ∈ s.inside, t.declares = false) ∧ b.announcements.Pairwise Admits) ∧
        Rejects (checked (readDeclarations b)) start := by
  have hall := verdict_declareInAll (e := { start with stack := .block :: start.stack }) hb
    (Nat.le_refl start.source.length) (by simp [hstart.stack])
  obtain ⟨t, hrun⟩ := hall.within.1 trivial
  obtain ⟨-, -, hpass, hfail⟩ := hall.within.2 t hrun
  have hfresh : Fresh b.announcements start.declared ↔ b.announcements.Pairwise Admits := by
    rw [hstart.declared, Fresh, and_iff_right]
    intro a _
    cases a <;> simp [NewTo]
  rw [hfresh] at hpass hfail
  have hread : readDeclarations b start = (.ok ⟨⟩, t.prepared) := Act.bind_of_ok hrun
  by_cases hrules : (∀ s ∈ b, ∀ t ∈ s.inside, t.declares = false) ∧ b.announcements.Pairwise Admits
  · refine .inl ⟨hrules, checked_of_ok ?_ hstart.problems⟩
    rw [hread, hpass hrules, ← Block.prepared_eq_outset hstart.generators, hstart.declared]
    rfl
  · exact .inr ⟨hrules, rejects_checked hread (hfail hrules)⟩

/-- The second check: all values can be set, and they are set at the top level. -/
theorem checked_readValues (hdecl : ∀ s ∈ b, ∀ t ∈ s.inside, t.declares = false) :
    ((∀ s ∈ b, ∀ t ∈ s.inside, t.assigns = false) ∧ Assignable b.needed b.assignments (b.outset start)) ∧
        checked (readValues b) (b.outset start) = (.ok ⟨⟩, having b.settings (b.outset start)) ∨
      ¬((∀ s ∈ b, ∀ t ∈ s.inside, t.assigns = false) ∧ Assignable b.needed b.assignments (b.outset start)) ∧
        Rejects (checked (readValues b)) (b.outset start) := by
  have hall := verdict_assignInAll (e := { b.outset start with stack := .block :: start.stack }) hb
    (Nat.le_refl start.source.length) rfl (by simp [hstart.stack]) hdecl
  have hvacant : Vacant b.settings { b.outset start with stack := .block :: start.stack } ↔
      Vacant b.settings (b.outset start) := vacant_stack_iff
  exact checked_cases (hall.within.imp (and_congr_right' (and_congr_right' hvacant.symm)) fun _ => rfl) hstart.problems

theorem checked_checkCommands : Performable (allInside b) (having b.settings (b.outset start)) ∧
        checked (checkCommands b) (having b.settings (b.outset start)) = (.ok ⟨⟩, b.environment start) ∨
      ¬Performable (allInside b) (having b.settings (b.outset start)) ∧
        Rejects (checked (checkCommands b)) (having b.settings (b.outset start)) := by
  have hall := verdict_checkInAll (e := { having b.settings (b.outset start) with stack := .block :: start.stack })
    (fun _ : True => allWrittenIn_iff.mpr hb) (Nat.le_refl start.source.length)
  exact checked_cases (hall.within.imp Iff.rfl fun _ => rfl) hstart.problems

theorem inspect_cases :
    b.Admissible ∧ inspect b start = (.ok ⟨⟩, b.environment start) ∨ ¬b.Admissible ∧ Rejects (inspect b) start := by
  rw [admissible_iff hstart]
  rcases checked_readDeclarations hstart hb with ⟨hrules₁, h₁⟩ | ⟨hrules₁, h₁⟩
  · rcases checked_readValues hstart hb hrules₁.1 with ⟨hrules₂, h₂⟩ | ⟨hrules₂, h₂⟩
    · rcases checked_checkCommands hstart hb with ⟨hrules₃, h₃⟩ | ⟨hrules₃, h₃⟩
      · refine .inl ⟨⟨hrules₁, hrules₂, hrules₃⟩, ?_⟩
        rw [inspect, bind_of_ok h₁, bind_of_ok h₂, h₃]
      · exact .inr ⟨fun h => hrules₃ h.2.2, rejects_bind_of_ok h₁ (rejects_bind_of_ok h₂ h₃)⟩
    · exact .inr ⟨fun h => hrules₂ h.2.1, rejects_bind_of_ok h₁ (h₂.bind _)⟩
  · exact .inr ⟨fun h => hrules₁ h.1, h₁.bind _⟩

theorem ofBlock_of_admissible (h : b.Admissible) (delay : Quantity Float) (filename : String) :
    ofBlock start b delay filename = .ok
      { env := b.environment start
        block := b
        filename
        channels := b.outputs.map fun name => (name, none)
        acquisitionDelay := delay } := by
  obtain ⟨-, hinspect⟩ := (inspect_cases hstart hb).resolve_right fun hnot => hnot.1 h
  have hchannels : (b.kinds.filterMap fun e => if e.2 = .output then some (e.1, (none : Option Int)) else none) =
      b.outputs.map fun name => (name, none) := by
    rw [Block.outputs, map_filterMap]
    refine filterMap_congr fun e _ => ?_
    split <;> rfl
  rw [ofBlock, hinspect, ← hchannels]
  rfl

theorem ofBlock_of_not_admissible (h : ¬b.Admissible) (delay : Quantity Float) (filename : String) :
    ∃ reports, reports ≠ [] ∧ ofBlock start b delay filename = .error ⟨.pulseSyntax, none, reports⟩ := by
  obtain ⟨-, reports, t, hreps, hinspect⟩ := (inspect_cases hstart hb).resolve_left fun hadm => h hadm.1
  refine ⟨reports, hreps, ?_⟩
  rw [ofBlock, hinspect]
  rfl

end Program

end LabBench.Pulse
