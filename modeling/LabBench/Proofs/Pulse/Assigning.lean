import LabBench.Proofs.Pulse.Verdicts
/-!
# Verdicts on assignments

An assignment is accepted at the top level and in declarations. Its target has to be known, its values have to suit
their paths, and no path may get two values.
-/

namespace LabBench.Pulse.Environment

open Act Statement Entries List

variable {n : Nat} {e : Environment} {xs : List (Path × Value)} {x : Path × Value} {a : Assignment} {paths : List Path}

/-! ### Values -/

theorem isAssigned_put {path path' : Path} {v : Value} (hv : v ≠ .none) :
    isAssigned { e with values := put path v e.values } path' = true ↔ path' = path ∨ e.isAssigned path' = true := by
  unfold isAssigned
  rw [get?_put]
  by_cases hpath : path = path'
  · subst hpath
    cases v with
    | none => exact absurd rfl hv
    | _ => simp
  · rw [if_neg (by simpa using hpath)]
    simp [Ne.symm hpath]

/-- All values suit their paths, none of the paths has a value already, and none gets two. -/
structure Vacant (settings : List (Path × Value)) (e : Environment) : Prop where
  suits : ∀ setting ∈ settings, Suits e.declared setting
  unassigned : ∀ setting ∈ settings, ¬e.isAssigned setting.1 = true
  distinct : (settings.map (·.1)).Nodup

def having (settings : List (Path × Value)) (e : Environment) : Environment :=
  { e with values := putAll settings e.values }

theorem having_append (xs ys : List (Path × Value)) (e : Environment) :
    having (xs ++ ys) e = having ys (having xs e) := by
  rw [having, putAll_append]
  rfl

theorem vacant_nil (e : Environment) : Vacant [] e :=
  ⟨by simp, by simp, .nil⟩

theorem vacant_stack_iff {stack : List Frame} : Vacant xs { e with stack } ↔ Vacant xs e :=
  ⟨fun h => ⟨h.suits, h.unassigned, h.distinct⟩, fun h => ⟨h.suits, h.unassigned, h.distinct⟩⟩

theorem isAssigned_having (hxs : ∀ x ∈ xs, x.2 ≠ .none) {path : Path} :
    (having xs e).isAssigned path = true ↔ path ∈ xs.map (·.1) ∨ e.isAssigned path = true := by
  induction xs generalizing e with
  | nil => simp [having, putAll]
  | cons x rest ih =>
    have hhead : having (x :: rest) e = having rest { e with values := put x.1 x.2 e.values } := rfl
    rw [hhead, ih fun y hy => hxs y (mem_cons_of_mem x hy), isAssigned_put (hxs x mem_cons_self),
      map_cons, mem_cons, or_left_comm, or_assoc]

theorem vacant_append_iff {ys : List (Path × Value)} (hxs : ∀ x ∈ xs, x.2 ≠ .none) :
    Vacant (xs ++ ys) e ↔ Vacant xs e ∧ Vacant ys (having xs e) := by
  constructor
  · rintro ⟨hsuits, hunasg, hdist⟩
    rw [forall_mem_append] at hsuits hunasg
    rw [map_append, nodup_append] at hdist
    refine ⟨⟨hsuits.1, hunasg.1, hdist.1⟩, hsuits.2, fun y hy => ?_, hdist.2.1⟩
    rw [isAssigned_having hxs, not_or]
    exact ⟨fun hmem => hdist.2.2 y.1 hmem y.1 (mem_map_of_mem hy) rfl, hunasg.2 y hy⟩
  · rintro ⟨hfst, hsnd⟩
    have hapart (y : Path × Value) (hy : y ∈ ys) : y.1 ∉ xs.map (·.1) ∧ ¬e.isAssigned y.1 = true := by
      have hy' := hsnd.unassigned y hy
      rwa [isAssigned_having hxs, not_or] at hy'
    refine ⟨forall_mem_append.mpr ⟨hfst.suits, hsnd.suits⟩,
      forall_mem_append.mpr ⟨hfst.unassigned, fun y hy => (hapart y hy).2⟩, ?_⟩
    rw [map_append, nodup_append]
    refine ⟨hfst.distinct, hsnd.distinct, fun path hpath path' hpath' hsame => ?_⟩
    obtain ⟨y, hy, rfl⟩ := mem_map.mp hpath'
    exact (hapart y hy).1 (hsame ▸ hpath)

theorem assign_of_vacant (h : Vacant [x] e) : assign x.1 x.2 e = (.ok ⟨⟩, having [x] e) := by
  obtain ⟨⟨name, attributes, kind, hpath, hkind, hobj⟩, -⟩ := forall_mem_cons.mp h.suits
  obtain ⟨hunasg, -⟩ := forall_mem_cons.mp h.unassigned
  obtain ⟨path, v⟩ := x
  obtain rfl : path = name :: attributes := hpath
  dsimp only at hobj hunasg ⊢
  rw [assign, get_bind, show e.kindOf name = some kind from hkind]
  dsimp only
  rw [hobj]
  dsimp only
  rw [if_neg hunasg]
  rfl

/-- An assignment that is refused is refused because of its value or its variable. -/
theorem assign_of_not_vacant (hpath : x.1 ≠ []) (h : ¬Vacant [x] e) :
    ∃ f, assign x.1 x.2 e = (.error f, e) ∧ (f.kind = .badType ∨ f.kind = .missingKey) := by
  obtain ⟨path, v⟩ := x
  cases path with
  | nil => exact absurd rfl hpath
  | cons name attributes =>
    dsimp only
    rw [assign, get_bind]
    cases hkind : e.kindOf name with
    | none => exact ⟨_, rfl, .inr rfl⟩
    | some kind =>
      dsimp only
      cases hobj : objection kind attributes v with
      | some message => exact ⟨_, rfl, .inl rfl⟩
      | none =>
        dsimp only
        by_cases hasg : e.isAssigned (name :: attributes) = true
        · rw [if_pos hasg]
          exact ⟨_, rfl, .inl rfl⟩
        · refine absurd ⟨?_, ?_, nodup_singleton _⟩ h
          · simp only [forall_mem_cons, not_mem_nil, false_imp_iff, implies_true, and_true]
            exact ⟨name, attributes, kind, rfl, hkind, hobj⟩
          · simpa using hasg

theorem verdict_assignAt {place : Nat} (hplace : place ≤ e.source.length) (hpath : x.1 ≠ []) :
    Verdict True (assignAt place x.1 x.2) e (Vacant [x] e) (having [x] e) := by
  have hattempt (outcome : Outcome PUnit) (t : Environment) (h : assign x.1 x.2 e = (outcome, t)) :
      Act.attempt (assign x.1 x.2) e = (.ok outcome, t) := by
    rw [attempt_eq, h]
  by_cases hvacant : Vacant [x] e
  · exact verdict_of_ok (bind_of_ok (hattempt _ _ (assign_of_vacant hvacant))) rfl id hvacant
  · obtain ⟨f, hasg, hkind⟩ := assign_of_not_vacant hpath hvacant
    have hstep : ∃ message, assignAt place x.1 x.2 e = addProblem message place e := by
      rw [assignAt, bind_of_ok (hattempt _ _ hasg)]
      dsimp only
      rcases hkind with hkind | hkind
      · rw [hkind, if_pos (by decide)]
        exact ⟨_, rfl⟩
      · rw [hkind, if_neg (by decide), if_pos (by decide)]
        exact ⟨_, rfl⟩
    obtain ⟨message, hstep⟩ := hstep
    exact ((verdict_addProblem message _ fun _ => hplace).congr hstep).imp (iff_of_false hvacant id) fun _ => rfl

theorem verdict_assignEach {place : Nat} (hplace : place ≤ e.source.length)
    (hpath : ∀ x ∈ xs, x.1 ≠ []) (hxs : ∀ x ∈ xs, x.2 ≠ .none) :
    Verdict True (xs.forM fun x => assignAt place x.1 x.2) e (Vacant xs e) (having xs e) := by
  induction xs generalizing e with
  | nil => exact (Verdict.pure e).imp (by simp [vacant_nil]) fun _ => rfl
  | cons x rest ih =>
    rw [forall_mem_cons] at hpath hxs
    have hrest (e' : Environment) (hsame : e'.surroundings = e.surroundings) :=
      ih (e := e') (source_eq hsame ▸ hplace) hpath.2 hxs.2
    have hboth := (verdict_assignAt hplace hpath.1).bind hrest
    have hx : ∀ y ∈ [x], y.2 ≠ .none := by simpa using hxs.1
    rw [← singleton_append]
    exact hboth.imp (vacant_append_iff hx) fun _ => having_append _ _ _

theorem settings_path_ne_nil (hx : x ∈ a.settings) : x.1 ≠ [] := by
  obtain ⟨place, target, content⟩ := a
  have hpath : target.path ≠ [] := by cases target <;> simp [Target.path]
  cases content with
  | value v =>
    obtain rfl := mem_singleton.mp hx
    exact hpath
  | dictionary entries =>
    obtain ⟨entry, -, rfl⟩ := mem_map.mp hx
    simp

theorem settings_ne_none (ha : a.WrittenIn n) (hx : x ∈ a.settings) : x.2 ≠ .none := by
  obtain ⟨place, target, content⟩ := a
  have hcont : content.Written := ha.content
  cases content with
  | value v =>
    obtain rfl := mem_singleton.mp hx
    exact hcont
  | dictionary entries =>
    obtain ⟨entry, hentry, rfl⟩ := mem_map.mp hx
    exact hcont entry (mem_of_mem_ofList hentry)

theorem verdict_checkTarget {target : Target} (htarget : target.PlacedIn n) (hn : n ≤ e.source.length)
    (hpaths : e.required = some paths) : Verdict True (checkTarget target) e (target.KnownAmong paths) e := by
  cases target with
  | named name => exact (Verdict.pure e).imp (by simp [Target.KnownAmong]) fun _ => rfl
  | part place owner name =>
    refine Verdict.within_self (verdict_get_bind ?_)
    split
    · rename_i hnone
      exact absurd (hpaths.symm.trans hnone) (by simp)
    · rename_i paths' hpaths'
      obtain rfl : paths = paths' := Option.some.inj (hpaths.symm.trans hpaths')
      split
      · rename_i hmem
        refine Verdict.imp (verdict_addProblem _ _ fun _ => ?_) ?_ fun _ => rfl
        · exact htarget.trans hn
        · simpa [Target.KnownAmong] using hmem
      · rename_i hmem
        refine (Verdict.pure _).imp ?_ fun _ => rfl
        simpa [Target.KnownAmong] using hmem

theorem verdict_assignContent (ha : a.WrittenIn n) (hn : n ≤ e.source.length) (hpaths : e.required = some paths) :
    Verdict True (assignContent a) e (a.Meets e.declared paths ∧ Vacant a.settings e) (having a.settings e) := by
  unfold assignContent
  refine Verdict.imp (Verdict.bind (verdict_checkTarget ha.target hn hpaths) (show ∀ e', _ → Verdict True _ e'
    (a.target.path.headD "" ∈ e'.declared.map (·.1) ∧ Vacant a.settings e') (having a.settings e') from
      fun e' hsame => verdict_get_bind ?_)) ?_ fun _ => rfl
  · have hplace : a.place ≤ e'.source.length := source_eq hsame ▸ ha.place.trans hn
    cases hkind : e'.kindOf (a.target.path.headD "") with
    | none =>
      have hmem := get?_eq_none_iff.mp hkind
      exact (verdict_addProblem _ _ fun _ => hplace).imp (iff_of_false (fun h => hmem h.1) id) fun _ => rfl
    | some kind =>
      have hmem : a.target.path.headD "" ∈ e'.declared.map (·.1) := mem_map_of_mem (mem_of_get? hkind)
      refine Verdict.imp ?_ (and_iff_right hmem) fun _ => rfl
      have hpath (x : Path × Value) (hx : x ∈ a.settings) : x.1 ≠ [] := settings_path_ne_nil hx
      have hval (x : Path × Value) (hx : x ∈ a.settings) : x.2 ≠ .none := settings_ne_none ha hx
      cases hcont : a.content with
      | value v =>
        have hset : a.settings = [(a.target.path, v)] := by rw [Assignment.settings, hcont]; rfl
        rw [hset] at hpath ⊢
        have hasg := verdict_assignAt (x := (a.target.path, v)) hplace (hpath _ mem_cons_self)
        exact hasg
      | dictionary entries =>
        have hset : a.settings = (distinctEntries entries).map fun e => (a.target.path ++ [e.1], e.2) := by
          rw [Assignment.settings, hcont]
          rfl
        have hforM := forM_map (l := distinctEntries entries) (g := fun e => (a.target.path ++ [e.1], e.2))
          (f := fun x => assignAt a.place x.1 x.2)
        have hasg := verdict_assignEach hplace hpath hval
        rw [hset] at hasg ⊢
        exact hasg.congr (congrFun hforM.symm e')
  · constructor
    · rintro ⟨hmeets, hvacant⟩
      exact ⟨hmeets.known, hmeets.declared, hvacant⟩
    · rintro ⟨hknown, hdecl, hvacant⟩
      exact ⟨⟨hknown, hdecl⟩, hvacant⟩

/-- Where assignments may stand, their place does not matter. -/
theorem verdict_assignHere (ha : a.WrittenIn n) (hn : n ≤ e.source.length)
    (hpaths : e.required = some paths) (hhere : e.stack.length = 1 ∨ e.stack.head? = some .declaration) :
    Verdict True (assignHere a) e (a.Meets e.declared paths ∧ Vacant a.settings e) (having a.settings e) := by
  refine verdict_get_bind ?_
  have hhere' : ¬(!e.isTopLevel && e.stack.head? != some .declaration) = true := by
    rcases hhere with hhere | hhere <;> simp [isTopLevel, hhere]
  rw [if_neg hhere']
  exact verdict_assignContent ha hn hpaths

theorem verdict_assignHere_inside (ha : a.WrittenIn n) (hn : n ≤ e.source.length) (hpaths : e.required = some paths)
    (hdeep : 1 < e.stack.length)
    (hframe : e.stack.head? ≠ some .declaration) : Verdict True (assignHere a) e False e := by
  refine verdict_get_bind ?_
  have hin : (!e.isTopLevel && e.stack.head? != some .declaration) = true := by
    simp only [isTopLevel, Bool.and_eq_true, Bool.not_eq_true', beq_eq_false_iff_ne, bne_iff_ne]
    exact ⟨by omega, hframe⟩
  rw [if_pos hin]
  have hcont (e' : Environment) (hsame : e'.surroundings = e.surroundings) :=
    verdict_assignContent (e := e') ha (source_eq hsame ▸ hn) ((required_eq hsame).trans hpaths)
  refine ((verdict_addProblem _ e fun _ => ha.place.trans hn).bind hcont).imp ?_ False.elim
  simp

/-- Nothing may be assigned below the top level. -/
theorem verdict_assignIn_inside {e : Environment} {s : Statement} (hs : s.WrittenIn n) (hn : n ≤ e.source.length)
    (hpaths : e.required = some paths)
    (hdeep : s.assigns = true → 1 < e.stack.length ∧ e.stack.head? = some .block)
    (hdecl : ∀ t ∈ s :: s.inside, t.declares = false) :
    Verdict True (assignIn s) e (∀ t ∈ s :: s.inside, t.assigns = false) e := by
  cases s with
  | assign a =>
    obtain ⟨hdeep, hframe⟩ := hdeep rfl
    rw [WrittenIn] at hs
    rw [assignIn]
    refine (verdict_assignHere_inside hs hn hpaths hdeep (by simp [hframe])).imp ?_ fun _ => rfl
    simp [assigns]
  | declare place kind names => simp [declares] at hdecl
  | loop place count body =>
    rw [WrittenIn, allWrittenIn_iff] at hs
    rw [inside, allInside_eq_flatMap, forall_mem_cons, forall_mem_flatMap] at hdecl
    rw [assignIn, assignInAll_eq_forM]
    have hbody := verdict_forM (e := { e with stack := .block :: .loop :: e.stack }) fun t ht e' hsame =>
      verdict_assignIn_inside (hs.2 t ht) (source_eq hsame ▸ hn) ((required_eq hsame).trans hpaths)
        (fun _ => by simp [stack_eq hsame]) (hdecl.2 t ht)
    refine hbody.within.within.imp ?_ fun _ => rfl
    rw [inside, allInside_eq_flatMap, forall_mem_cons, forall_mem_flatMap]
    exact and_iff_right rfl
  | acquire place | delay place length | pulses trains =>
    exact (Verdict.pure e).imp (by simp [inside, assigns]) fun _ => rfl

def Assignable (paths : List Path) (as : List Assignment) (e : Environment) : Prop :=
  (∀ a ∈ as, a.Meets e.declared paths) ∧ Vacant (as.flatMap Assignment.settings) e

theorem assignable_append_iff {as bs : List Assignment} (has : ∀ a ∈ as, a.WrittenIn n) :
    Assignable paths (as ++ bs) e ↔
      Assignable paths as e ∧ Assignable paths bs (having (as.flatMap Assignment.settings) e) := by
  have hvals : ∀ x ∈ as.flatMap Assignment.settings, x.2 ≠ .none := by
    intro x hx
    obtain ⟨a, ha, hx⟩ := mem_flatMap.mp hx
    exact settings_ne_none (has a ha) hx
  rw [Assignable, flatMap_append, vacant_append_iff hvals, forall_mem_append]
  exact and_and_and_comm

theorem assignable_nil (paths : List Path) (e : Environment) : Assignable paths [] e :=
  ⟨by simp, vacant_nil e⟩

theorem assignable_singleton_iff : Assignable paths [a] e ↔ a.Meets e.declared paths ∧ Vacant a.settings e := by
  simp [Assignable]

theorem verdict_assignNames {names : List Declared} (hnames : ∀ d ∈ names, d.WrittenIn n)
    (hn : n ≤ e.source.length) (hpaths : e.required = some paths) (place : Nat) (kind : Kind) :
    Verdict True (assignIn (.declare place kind names)) e (Assignable paths (names.filterMap Declared.assignment?) e)
      (having ((names.filterMap Declared.assignment?).flatMap Assignment.settings) e) := by
  rw [assignIn]
  induction names generalizing e with
  | nil => exact (Verdict.pure e).imp (by simp [assignable_nil]) fun _ => rfl
  | cons d rest ih =>
    rw [forall_mem_cons] at hnames
    have hrest (e' : Environment) (hsame : e'.surroundings = e.surroundings) :=
      ih (e := e') hnames.2 (source_eq hsame ▸ hn) ((required_eq hsame).trans hpaths)
    cases d with
    | plain place' name =>
      have hplain := (Verdict.pure { e with stack := .declaration :: e.stack }).within_self.bind hrest
      exact hplain.imp (iff_of_eq (true_and _)).symm fun _ => rfl
    | assigned a =>
      have ha : ∀ a' ∈ [a], a'.WrittenIn n := fun a' ha' => mem_singleton.mp ha' ▸ hnames.1
      have hhere := verdict_assignHere (e := { e with stack := .declaration :: e.stack }) hnames.1 hn hpaths (.inr rfl)
      have hhead : Verdict True (within .declaration (assignHere a)) e (Assignable paths [a] e)
          (having ([a].flatMap Assignment.settings) e) := by
        rw [flatMap_singleton]
        exact hhere.within.imp (assignable_singleton_iff.trans (and_congr_right' vacant_stack_iff.symm)) fun _ => rfl
      have happ : (Declared.assigned a :: rest).filterMap Declared.assignment? =
          [a] ++ rest.filterMap Declared.assignment? := rfl
      rw [happ]
      refine (hhead.bind hrest).imp (assignable_append_iff ha) fun _ => ?_
      rw [flatMap_append, having_append]

theorem verdict_assignIn {s : Statement} (hs : s.WrittenIn n) (hn : n ≤ e.source.length)
    (hpaths : e.required = some paths) (htop : e.stack.length = 1) (hdecl : ∀ t ∈ s.inside, t.declares = false) :
    Verdict True (assignIn s) e ((∀ t ∈ s.inside, t.assigns = false) ∧ Assignable paths s.assignments e)
      (having (s.assignments.flatMap Assignment.settings) e) := by
  cases s with
  | assign a =>
    rw [WrittenIn] at hs
    rw [assignIn]
    refine (verdict_assignHere hs hn hpaths (.inl htop)).imp ?_ fun _ => ?_
    · rw [assignments, assignable_singleton_iff]
      simp [inside]
    · rw [assignments, flatMap_singleton]
  | declare place kind names =>
    rw [WrittenIn] at hs
    refine (verdict_assignNames hs.2 hn hpaths place kind).imp ?_ fun _ => rfl
    simp [inside, assignments]
  | acquire place => exact (Verdict.pure e).imp (by simp [inside, assignments, assignable_nil]) fun _ => rfl
  | _ =>
    have hin := verdict_assignIn_inside hs hn hpaths (by simp [assigns]) (forall_mem_cons.mpr ⟨rfl, hdecl⟩)
    exact hin.imp (by simp [assignments, assignable_nil, assigns]) fun _ => rfl

theorem writtenIn_of_mem_assignments {s : Statement} (hs : s.WrittenIn n) (ha : a ∈ s.assignments) : a.WrittenIn n := by
  cases s with
  | assign a' =>
    obtain rfl := mem_singleton.mp ha
    rwa [WrittenIn] at hs
  | declare place kind names =>
    rw [WrittenIn] at hs
    obtain ⟨d, hd, hsome⟩ := mem_filterMap.mp ha
    cases d with
    | plain place' name => cases hsome
    | assigned a' =>
      cases hsome
      exact hs.2 _ hd
  | _ => cases ha

theorem verdict_assignInAll {b : Block} (hb : ∀ s ∈ b, s.WrittenIn n) (hn : n ≤ e.source.length)
    (hpaths : e.required = some paths) (htop : e.stack.length = 1)
    (hdecl : ∀ s ∈ b, ∀ t ∈ s.inside, t.declares = false) : Verdict True (assignInAll b) e
      ((∀ s ∈ b, ∀ t ∈ s.inside, t.assigns = false) ∧ Assignable paths b.assignments e) (having b.settings e) := by
  induction b generalizing e with
  | nil =>
    rw [assignInAll]
    exact (Verdict.pure e).imp (by simp [Block.assignments, assignable_nil]) fun _ => rfl
  | cons s rest ih =>
    rw [forall_mem_cons] at hb hdecl
    rw [assignInAll]
    have hrest (e' : Environment) (hsame : e'.surroundings = e.surroundings) :=
      ih (e := e') hb.2 (source_eq hsame ▸ hn) ((required_eq hsame).trans hpaths) (stack_eq hsame ▸ htop) hdecl.2
    have hboth := (verdict_assignIn hb.1 hn hpaths htop hdecl.1).bind hrest
    have happ : Block.assignments (s :: rest) = s.assignments ++ Block.assignments rest := flatMap_cons
    refine hboth.imp ?_ fun _ => ?_
    · rw [happ, assignable_append_iff fun a ha => writtenIn_of_mem_assignments hb.1 ha, forall_mem_cons,
        and_and_and_comm]
    · rw [Block.settings, happ, flatMap_append, having_append]
      rfl

end LabBench.Pulse.Environment
