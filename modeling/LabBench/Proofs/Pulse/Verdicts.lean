import LabBench.Proofs.Pulse.Contents
import LabBench.Proofs.Pulse.Locations
import LabBench.Proofs.Pulse.Reading
/-!
# Verdicts on pulse programs

The checks of a program never end in a fault if all places lie in the source. Each of them has a *verdict*: if its
rules are met, then it is known how it changes the environment, and otherwise there are problems afterwards.
Problems stay, so a check in several steps passes exactly if all of its steps do.
-/

namespace LabBench.Pulse

open Statement Announcement Entries List

namespace Environment

/-! ### Verdicts -/

/-- What a check leaves alone: the source, the frames, and the values that are needed. -/
structure Surroundings where
  source : String
  stack : List Frame
  required : Option (List Path)

/-- What a check leaves alone in an environment. -/
def surroundings (e : Environment) : Surroundings :=
  ⟨e.source, e.stack, e.required⟩

/-- A check passes to a known environment if its rules are met, and otherwise it leaves problems. Where it is `sure`, it
does not end in a fault. -/
def Verdict (sure : Prop) (act : Act Environment PUnit) (e : Environment) (rules : Prop) (after : Environment) : Prop :=
  (sure → ∃ e', act e = (.ok ⟨⟩, e')) ∧ ∀ e', act e = (.ok ⟨⟩, e') → e'.surroundings = e.surroundings ∧
    (e.problems ≠ [] → e'.problems ≠ []) ∧
    (rules → e' = after) ∧ (¬rules → e'.problems ≠ [])

section Verdict

variable {sure rules : Prop} {act act' : Act Environment PUnit} {e after e' : Environment}

theorem Verdict.imp (h : Verdict sure act e rules after) {rules' : Prop} {after' : Environment}
    (hrules : rules' ↔ rules) (hafter : rules' → after' = after) : Verdict sure act e rules' after' := by
  refine ⟨h.1, fun e' hact => ?_⟩
  obtain ⟨hsame, hstay, hpass, hfail⟩ := h.2 e' hact
  refine ⟨hsame, hstay, fun hmet => ?_, fun hunmet => hfail fun hmet => hunmet (hrules.mpr hmet)⟩
  rw [hafter hmet, hpass (hrules.mp hmet)]

theorem Verdict.congr (h : Verdict sure act' e rules after) (hact : act e = act' e) :
    Verdict sure act e rules after := by
  unfold Verdict
  rw [hact]
  exact h

theorem verdict_of_ok (h : act e = (.ok ⟨⟩, after)) (hsame : after.surroundings = e.surroundings)
    (hstay : e.problems ≠ [] → after.problems ≠ []) (hmet : rules) : Verdict sure act e rules after := by
  refine ⟨fun _ => ⟨after, h⟩, fun e' h' => ?_⟩
  obtain rfl : after = e' := congrArg Prod.snd (h.symm.trans h')
  exact ⟨hsame, hstay, fun _ => rfl, absurd hmet⟩

protected theorem Verdict.pure (e : Environment) : Verdict sure (pure ⟨⟩) e True e :=
  verdict_of_ok rfl rfl id trivial

theorem verdict_get_bind {f : Environment → Act Environment PUnit} (h : Verdict sure (f e) e rules after) :
    Verdict sure (get >>= f) e rules after :=
  h

theorem verdict_modify {f : Environment → Environment} (hsame : (f e).surroundings = e.surroundings)
    (hprob : (f e).problems = e.problems) : Verdict sure (modify f) e True (f e) :=
  verdict_of_ok rfl hsame (fun h => hprob ▸ h) trivial

theorem verdict_addProblem {place : Nat} (message : String) (after : Environment)
    (hplace : sure → place ≤ e.source.length) : Verdict sure (addProblem message place) e False after := by
  refine ⟨fun hsure => ?_, fun e' hact => ?_⟩
  · have hact := Act.lift_bind_of_ok (locate_of_le (hplace hsure))
      (fun location => set { e with problems := e.problems ++ [(message, location)] }) e
    exact ⟨_, hact⟩
  · obtain ⟨location, -, hact⟩ := Act.lift_bind_eq_ok.mp (show (Act.lift (locate e.source place) >>= _) e = _ from hact)
    cases hact
    exact ⟨rfl, by simp, False.elim, by simp⟩

/-- The second step starts where the first one ends if its rules are met, and otherwise its problems stay. -/
theorem Verdict.bind (h : Verdict sure act e rules after) {rules' : Environment → Prop}
    {next : Environment → Environment}
    (h' : ∀ e', e'.surroundings = e.surroundings → Verdict sure act' e' (rules' e') (next e')) :
    Verdict sure (act >>= fun _ => act') e (rules ∧ rules' after) (next after) := by
  refine ⟨fun hsure => ?_, fun t' hact => ?_⟩
  · obtain ⟨t, hact⟩ := h.1 hsure
    obtain ⟨t', hact'⟩ := (h' t (h.2 t hact).1).1 hsure
    exact ⟨t', (Act.bind_of_ok hact).trans hact'⟩
  obtain ⟨_, t, hact, hact'⟩ := Act.bind_eq_ok.mp hact
  obtain ⟨hsame, hstay, hpass, hfail⟩ := h.2 t hact
  obtain ⟨hsame', hstay', hpass', hfail'⟩ := (h' t hsame).2 t' hact'
  refine ⟨hsame'.trans hsame, fun hp => hstay' (hstay hp), ?_, ?_⟩
  · rintro ⟨hmet, hmet'⟩
    obtain rfl := hpass hmet
    exact hpass' hmet'
  · intro hunmet
    by_cases hmet : rules
    · obtain rfl := hpass hmet
      exact hfail' fun hmet' => hunmet ⟨hmet, hmet'⟩
    · exact hstay' (hfail hmet)

theorem Verdict.within {frame : Frame} (h : Verdict sure act { e with stack := frame :: e.stack } rules after) :
    Verdict sure (within frame act) e rules { after with stack := after.stack.tail } := by
  refine ⟨fun hsure => ?_, fun t' hact => ?_⟩
  · obtain ⟨t, hact⟩ := h.1 hsure
    exact ⟨_, within_eq_ok.mpr ⟨t, hact, rfl⟩⟩
  obtain ⟨t, hrun, rfl⟩ := within_eq_ok.mp hact
  obtain ⟨hsame, hstay, hpass, hfail⟩ := h.2 t hrun
  refine ⟨?_, hstay, ?_, hfail⟩
  · simp only [surroundings, Surroundings.mk.injEq] at hsame ⊢
    exact ⟨hsame.1, congrArg tail hsame.2.1, hsame.2.2⟩
  · intro hmet
    rw [hpass hmet]

theorem Verdict.within_self {frame : Frame}
    (h : Verdict sure act { e with stack := frame :: e.stack } rules { e with stack := frame :: e.stack }) :
    Verdict sure (Environment.within frame act) e rules e :=
  h.within

theorem verdict_forM {α : Type} {f : α → Act Environment PUnit} {rules : α → Environment → Prop} {xs : List α}
    (h : ∀ x ∈ xs, ∀ e', e'.surroundings = e.surroundings → Verdict sure (f x) e' (rules x e') e') :
    Verdict sure (xs.forM f) e (∀ x ∈ xs, rules x e) e := by
  induction xs generalizing e with
  | nil => exact (Verdict.pure e).imp (by simp) fun _ => rfl
  | cons x xs ih =>
    have hrest (e' : Environment) (hsame : e'.surroundings = e.surroundings) :
        Verdict sure (xs.forM f) e' (∀ x ∈ xs, rules x e') e' :=
      ih (e := e') fun y hy t ht => h y (mem_cons_of_mem x hy) t (ht.trans hsame)
    exact ((h x mem_cons_self e rfl).bind hrest).imp forall_mem_cons fun _ => rfl

theorem source_eq (h : e'.surroundings = e.surroundings) : e'.source = e.source :=
  congrArg Surroundings.source h

theorem stack_eq (h : e'.surroundings = e.surroundings) : e'.stack = e.stack :=
  congrArg Surroundings.stack h

theorem required_eq (h : e'.surroundings = e.surroundings) : e'.required = e.required :=
  congrArg Surroundings.required h

end Verdict

variable {n : Nat} {e : Environment}

/-! ### Declarations -/

/-- All announcements may follow one another, and what is declared already. -/
def Fresh (as : List Announcement) (declared : List (String × Kind)) : Prop :=
  (∀ a ∈ as, a.NewTo declared) ∧ as.Pairwise Admits

/-- The variables after some announcements. -/
def announced (as : List Announcement) (declared : List (String × Kind)) : List (String × Kind) :=
  putAll (as.map Announcement.entry) declared

theorem newTo_announced_iff {as : List Announcement} {b : Announcement} {declared : List (String × Kind)} :
    b.NewTo (announced as declared) ↔ b.NewTo declared ∧ ∀ a ∈ as, a.Admits b := by
  cases b with
  | marker => simp [NewTo, Admits]
  | named name kind =>
    have hkeys : name ∉ (announced as declared).map (·.1) ↔
        name ∉ declared.map (·.1) ∧ name ∉ as.map fun a => a.entry.1 := by
      rw [announced, mem_keys_putAll, not_or, and_comm, map_map]
      rfl
    have hadmits : (∀ a ∈ as, a.Admits (.named name kind)) ↔ name ∉ as.map fun a => a.entry.1 := by
      simp [Admits, NewTo, eq_comm]
    rw [hadmits]
    exact hkeys

theorem fresh_append_iff {as bs : List Announcement} {declared : List (String × Kind)} :
    Fresh (as ++ bs) declared ↔ Fresh as declared ∧ Fresh bs (announced as declared) := by
  simp only [Fresh, forall_mem_append, pairwise_append, newTo_announced_iff]
  constructor
  · rintro ⟨⟨has, hbs⟩, has', hbs', hboth⟩
    exact ⟨⟨has, has'⟩, fun b hb => ⟨hbs b hb, fun a ha => hboth a ha b hb⟩, hbs'⟩
  · rintro ⟨⟨has, has'⟩, hbs, hbs'⟩
    exact ⟨⟨has, fun b hb => (hbs b hb).1⟩, has', hbs', fun a ha b hb => (hbs b hb).2 a ha⟩

theorem announced_append (as bs : List Announcement) (declared : List (String × Kind)) :
    announced (as ++ bs) declared = announced bs (announced as declared) := by
  rw [announced, map_append, putAll_append]
  rfl

theorem fresh_nil (declared : List (String × Kind)) : Fresh [] declared :=
  ⟨by simp, .nil⟩

theorem place_le_of_writtenIn {d : Declared} (h : d.WrittenIn n) : d.place ≤ n := by
  cases d with
  | plain place name => exact h
  | assigned a => exact h.place

theorem exists_path_eq (d : Declared) : ∃ attributes, d.path = d.name :: attributes := by
  rcases d with ⟨place, name⟩ | ⟨place, name | ⟨place', owner, name⟩, content⟩
  · exact ⟨[], rfl⟩
  · exact ⟨[], rfl⟩
  · exact ⟨[name], rfl⟩

theorem verdict_declareVariable (kind : Kind) {d : Declared} (hd : d.WrittenIn n) (hn : n ≤ e.source.length) :
    Verdict True (declareVariable kind d) e (Fresh [.named d.name kind] e.declared)
      { e with declared := announced [.named d.name kind] e.declared } := by
  obtain ⟨attributes, hpath⟩ := exists_path_eq d
  unfold declareVariable
  rw [hpath]
  have hnew : Fresh [.named d.name kind] e.declared ↔ ¬has d.name e.declared = true := by
    simp [Fresh, NewTo, has_iff_mem_keys]
  change Verdict True (if has d.name e.declared = true then _ else _) e _ _
  by_cases hhas : has d.name e.declared = true
  · rw [if_pos hhas]
    have hplace : d.place ≤ e.source.length := (place_le_of_writtenIn hd).trans hn
    exact (verdict_addProblem _ _ fun _ => hplace).imp (by simp [hnew, hhas]) fun _ => rfl
  · rw [if_neg hhas]
    exact (verdict_modify rfl rfl).imp (by simp [hnew, hhas]) fun _ => rfl

theorem verdict_declareVariables (kind : Kind) {names : List Declared} (hnames : ∀ d ∈ names, d.WrittenIn n)
    (hn : n ≤ e.source.length) : Verdict True (names.forM (declareVariable kind)) e
      (Fresh (names.map fun d => .named d.name kind) e.declared)
      { e with declared := announced (names.map fun d => .named d.name kind) e.declared } := by
  induction names generalizing e with
  | nil => exact (Verdict.pure e).imp (by simp [fresh_nil]) fun _ => rfl
  | cons d rest ih =>
    have hrest (e' : Environment) (hsame : e'.surroundings = e.surroundings) :=
      ih (e := e') (fun d' hd' => hnames d' (mem_cons_of_mem d hd')) (source_eq hsame ▸ hn)
    have hboth := (verdict_declareVariable kind (hnames d mem_cons_self) hn).bind hrest
    have happ : ((d :: rest).map fun d => Announcement.named d.name kind) =
        [.named d.name kind] ++ rest.map fun d => .named d.name kind := rfl
    rw [happ]
    exact hboth.imp fresh_append_iff fun _ => by rw [announced_append]

theorem declareInAll_eq_forM (ss : List Statement) : declareInAll ss = ss.forM declareIn := by
  induction ss with
  | nil => rw [declareInAll]; rfl
  | cons s rest ih => rw [declareInAll, ih]; rfl

/-- Nothing may be declared below the top level. -/
theorem verdict_declareIn_inside {e : Environment} {s : Statement} (hs : s.WrittenIn n) (hn : n ≤ e.source.length)
    (hdeep : s.declares = true → 1 < e.stack.length) :
    Verdict True (declareIn s) e (∀ t ∈ s :: s.inside, t.declares = false) e := by
  have htop (h : s.declares = true) : (!e.isTopLevel) = true := by
    simp [isTopLevel, (hdeep h).ne']
  cases s with
  | acquire place =>
    rw [WrittenIn] at hs
    rw [declareIn]
    change Verdict True (if (!e.isTopLevel) = true then _ else _) e _ _
    rw [if_pos (htop rfl)]
    have hmark (e' : Environment) (_ : e'.surroundings = e.surroundings) :
        Verdict True (modify fun env => { env with declared := put markerName .marker env.declared }) e'
          True { e' with declared := put markerName .marker e'.declared } :=
      verdict_modify rfl rfl
    have hprob := (verdict_addProblem "Acquisition not at top level" e fun _ => hs.trans hn).bind hmark
    exact hprob.imp (by simp [declares]) (by simp [declares])
  | declare place kind names =>
    rw [WrittenIn] at hs
    rw [declareIn]
    change Verdict True (if (!e.isTopLevel) = true then _ else _) e _ _
    rw [if_pos (htop rfl)]
    have hnames (e' : Environment) (hsame : e'.surroundings = e.surroundings) :=
      verdict_declareVariables (e := e') kind hs.2 (source_eq hsame ▸ hn)
    have hprob := (verdict_addProblem "Declaration not at top level" e fun _ => hs.1.trans hn).bind hnames
    exact hprob.imp (by simp [declares]) (by simp [declares])
  | loop place count body =>
    rw [WrittenIn, allWrittenIn_iff] at hs
    rw [declareIn, declareInAll_eq_forM]
    have hbody := verdict_forM (e := { e with stack := .block :: .loop :: e.stack }) fun t ht e' hsame =>
      verdict_declareIn_inside (hs.2 t ht) (source_eq hsame ▸ hn) fun _ => by simp [stack_eq hsame]
    refine hbody.within.within.imp ?_ fun _ => rfl
    rw [inside, allInside_eq_flatMap, forall_mem_cons, forall_mem_flatMap]
    exact and_iff_right rfl
  | assign a | delay place length | pulses trains =>
    exact (Verdict.pure e).imp (by simp [inside, declares]) fun _ => rfl

theorem verdict_declareIn {s : Statement} (hs : s.WrittenIn n) (hn : n ≤ e.source.length) (htop : e.stack.length = 1) :
    Verdict True (declareIn s) e ((∀ t ∈ s.inside, t.declares = false) ∧ Fresh s.announcements e.declared)
      { e with declared := announced s.announcements e.declared } := by
  have htop' : ¬(!e.isTopLevel) = true := by simp [isTopLevel, htop]
  cases s with
  | acquire place =>
    rw [declareIn]
    change Verdict True (if (!e.isTopLevel) = true then _ else _) e _ _
    rw [if_neg htop']
    refine (verdict_modify rfl rfl).imp ?_ fun _ => rfl
    simp [inside, announcements, Fresh, NewTo]
  | declare place kind names =>
    rw [WrittenIn] at hs
    rw [declareIn]
    change Verdict True (if (!e.isTopLevel) = true then _ else _) e _ _
    rw [if_neg htop']
    refine (verdict_declareVariables kind hs.2 hn).imp ?_ fun _ => rfl
    simp [inside, announcements]
  | _ =>
    have hin := verdict_declareIn_inside hs hn (by simp [declares])
    exact hin.imp (by simp [announcements, fresh_nil, declares]) fun _ => rfl

theorem verdict_declareInAll {b : Block} (hb : ∀ s ∈ b, s.WrittenIn n) (hn : n ≤ e.source.length)
    (htop : e.stack.length = 1) : Verdict True (declareInAll b) e
      ((∀ s ∈ b, ∀ t ∈ s.inside, t.declares = false) ∧ Fresh b.announcements e.declared)
      { e with declared := announced b.announcements e.declared } := by
  induction b generalizing e with
  | nil =>
    rw [declareInAll]
    exact (Verdict.pure e).imp (by simp [Block.announcements, fresh_nil]) fun _ => rfl
  | cons s rest ih =>
    rw [declareInAll]
    have hrest (e' : Environment) (hsame : e'.surroundings = e.surroundings) :=
      ih (e := e') (fun t ht => hb t (mem_cons_of_mem s ht)) (source_eq hsame ▸ hn) (stack_eq hsame ▸ htop)
    have hboth := (verdict_declareIn (hb s mem_cons_self) hn htop).bind hrest
    have happ : Block.announcements (s :: rest) = s.announcements ++ Block.announcements rest := flatMap_cons
    refine hboth.imp ?_ fun _ => by rw [happ, announced_append]
    rw [happ, fresh_append_iff, forall_mem_cons, and_and_and_comm]

/-! ### The end of the declarations -/

/-- Every output gets a waveform, and the values that are needed become known. -/
def prepared (e : Environment) : Environment :=
  { e with
    generators := (e.declared.filterMap fun d => if d.2 = .output then some d.1 else none).foldl
      (fun gs name => put name (.fresh e.frequency false) gs) e.generators
    required := some (e.declared.flatMap fun d => requiredOf d.1 d.2) }

end Environment

end LabBench.Pulse
