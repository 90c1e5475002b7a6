import LabBench.Clock
import Mathlib.Tactic.Common
/-!
# Steps, frames and simulation of computations

A computation on a state *preserves* a property of the state when the property still holds after it,
whether the computation ends in a fault or not. It *keeps* a view of the state when it preserves
every value of the view. Most parts of a larger computation keep the view at hand, and what the whole
does to it then comes from the few parts that do not.

Two computations on different states are compared through a relation between the states: one of them
*covers* the other if it succeeds whenever the other one does, and they *mirror* each other if they
also fail together.
-/

namespace LabBench

open List

variable {α β : Type} {f : α → Outcome β}

theorem Outcome.bind_eq_ok {x : Outcome α} {b : β} : x >>= f = .ok b ↔ ∃ a, x = .ok a ∧ f a = .ok b := by
  cases x with
  | error e | ok a => simp [bind, Except.bind]

theorem Outcome.bind_eq_error {x : Outcome α} {e : Fault} :
    x >>= f = .error e ↔ x = .error e ∨ ∃ a, x = .ok a ∧ f a = .error e := by
  cases x with
  | error e | ok a => simp [bind, Except.bind]

theorem Outcome.exists_of_isOk {α : Type} {x : Outcome α} (h : x.isOk = true) : ∃ a, x = .ok a := by
  cases x with
  | error e => cases h
  | ok a => exact ⟨a, rfl⟩

theorem Outcome.exists_of_mapM_eq_error {xs : List α} {e : Fault}
    (h : xs.mapM f = .error e) : ∃ x ∈ xs, f x = .error e := by
  induction xs with
  | nil => cases h
  | cons x xs ih =>
    rw [mapM_cons] at h
    rcases bind_eq_error.mp h with hx | ⟨z, -, h⟩
    · exact ⟨x, mem_cons_self, hx⟩
    · rcases bind_eq_error.mp h with hxs | ⟨zs, -, h⟩
      · obtain ⟨y, hy, hfy⟩ := ih hxs
        exact ⟨y, mem_cons_of_mem x hy, hfy⟩
      · cases h

theorem Outcome.mapM_eq_ok {g : α → β} {xs : List α} (h : ∀ x ∈ xs, f x = .ok (g x)) : xs.mapM f = .ok (xs.map g) := by
  induction xs with
  | nil => rfl
  | cons x xs ih =>
    rw [forall_mem_cons] at h
    rw [mapM_cons, h.1, ih h.2]
    rfl

/-- Results carry the marks of what they come from. -/
theorem Outcome.exists_marked_of_mapM {κ : Type} (mark : α → κ) {xs : List α} {ys : List β}
    (h : xs.mapM f = .ok ys) : ∃ marked : List (κ × β), ys = marked.map (·.2) ∧ marked.map (·.1) = xs.map mark ∧
      ∀ m ∈ marked, ∃ x ∈ xs, mark x = m.1 ∧ f x = .ok m.2 := by
  induction xs generalizing ys with
  | nil =>
    cases h
    exact ⟨[], rfl, rfl, by simp⟩
  | cons x xs ih =>
    rw [mapM_cons] at h
    obtain ⟨z, hz, h⟩ := bind_eq_ok.mp h
    obtain ⟨zs, hzs, h⟩ := bind_eq_ok.mp h
    cases h
    obtain ⟨marked, rfl, hmarks, hmem⟩ := ih hzs
    refine ⟨(mark x, z) :: marked, rfl, by rw [map_cons, map_cons, hmarks], forall_mem_cons.mpr ⟨?_, fun m hm => ?_⟩⟩
    · exact ⟨x, mem_cons_self, rfl, hz⟩
    · obtain ⟨y, hy, hm⟩ := hmem m hm
      exact ⟨y, mem_cons_of_mem x hy, hm⟩

theorem Outcome.exists_of_mem_mapM {xs : List α} {ys : List β}
    (h : xs.mapM f = .ok ys) {y : β} (hy : y ∈ ys) : ∃ x ∈ xs, f x = .ok y := by
  obtain ⟨marked, rfl, -, hmem⟩ := exists_marked_of_mapM id h
  obtain ⟨m, hm, rfl⟩ := mem_map.mp hy
  obtain ⟨x, hx, -, hfx⟩ := hmem m hm
  exact ⟨x, hx, hfx⟩

namespace Act

variable {σ α β γ : Type} {f : α → Act σ β} {s t s' : σ} {a : α} {x : Outcome α} {act : Act σ α}

/-! ### Steps -/

theorem bind_of_ok (h : act s = (.ok a, t)) : (act >>= f) s = f a t := by
  change ExceptT.bindCont f (act s).1 (act s).2 = _
  rw [h]
  rfl

theorem bind_of_error {e : Fault} (h : act s = (.error e, t)) : (act >>= f) s = (.error e, t) := by
  change ExceptT.bindCont f (act s).1 (act s).2 = _
  rw [h]
  rfl

theorem bind_eq_ok {b : β} : (act >>= f) s = (.ok b, s') ↔ ∃ a t, act s = (.ok a, t) ∧ f a t = (.ok b, s') := by
  constructor
  · intro h
    rcases hact : act s with ⟨e | a, t⟩
    · rw [bind_of_error hact] at h
      cases h
    · rw [bind_of_ok hact] at h
      exact ⟨a, t, rfl, h⟩
  · rintro ⟨a, t, hact, hf⟩
    rw [bind_of_ok hact]
    exact hf

theorem bind_eq_ok_of_eq (h : act s = (x, t)) {b : β} :
    (act >>= f) s = (.ok b, s') ↔ ∃ a, x = .ok a ∧ f a t = (.ok b, s') := by
  rw [bind_eq_ok, h]
  constructor
  · rintro ⟨a, _, ⟨⟩, hf⟩
    exact ⟨a, rfl, hf⟩
  · rintro ⟨a, rfl, hf⟩
    exact ⟨a, t, rfl, hf⟩

theorem bind_lift_of_eq (h : act s = (x, t)) (g : α → Outcome β) : (act >>= fun a => lift (g a)) s = (x >>= g, t) := by
  cases x with
  | error e => exact bind_of_error h
  | ok a => exact bind_of_ok h

theorem bind_congr {act act' : Act σ α} {f' : α → Act σ β} (h : act' s' = act s)
    (hf : ∀ a t, act s = (.ok a, t) → f' a t = f a t) : (act' >>= f') s' = (act >>= f) s := by
  rcases hact : act s with ⟨e | a, t⟩
  · rw [bind_of_error hact, bind_of_error (h.trans hact)]
  · rw [bind_of_ok hact, bind_of_ok (h.trans hact)]
    exact hf a t hact

theorem get_bind (f : σ → Act σ α) (s : σ) : ((get : Act σ σ) >>= f) s = f s s :=
  rfl

theorem lift_bind_eq_ok {b : β} : (lift x >>= f) s = (.ok b, s') ↔ ∃ a, x = .ok a ∧ f a s = (.ok b, s') :=
  bind_eq_ok_of_eq rfl

theorem lift_bind_of_ok (h : x = .ok a) (f : α → Act σ β) (s : σ) : ((lift x : Act σ α) >>= f) s = f a s := by
  rw [h]
  rfl

theorem pure_eq_ok {b : α} : (pure a : Act σ α) s = (.ok b, s') ↔ b = a ∧ s = s' := by
  constructor
  · intro h
    cases h
    exact ⟨rfl, rfl⟩
  · rintro ⟨rfl, rfl⟩
    rfl

theorem attempt_eq (act : Act σ α) (s : σ) : attempt act s = (.ok (act s).1, (act s).2) :=
  rfl

/-! ### Preserved properties -/

/-- A computation preserves a property of its state if the property still holds afterwards, also
after a fault. -/
def Preserves (P : σ → Prop) (act : Act σ α) : Prop :=
  ∀ s, P s → P (act s).2

variable {P : σ → Prop}

theorem Preserves.apply (h : Preserves P act) (hs : act s = (x, s')) (hP : P s) : P s' := by
  have hP' := h s hP
  rwa [hs] at hP'

protected theorem Preserves.pure (a : α) : Preserves P (pure a : Act σ α) :=
  fun _ hP => hP

protected theorem Preserves.lift (x : Outcome α) : Preserves P (lift x : Act σ α) :=
  fun _ hP => hP

protected theorem Preserves.fail (f : Fault) : Preserves P (fail f : Act σ α) :=
  fun _ hP => hP

protected theorem Preserves.get : Preserves P (get : Act σ σ) :=
  fun _ hP => hP

protected theorem Preserves.modify {f : σ → σ} (h : ∀ s, P s → P (f s)) : Preserves P (modify f : Act σ PUnit) :=
  h

theorem Preserves.bind (h : Preserves P act) (hf : ∀ a, Preserves P (f a)) : Preserves P (act >>= f) := by
  intro s hP
  rcases hs : act s with ⟨e | a, t⟩
  · rw [bind_of_error hs]
    exact h.apply hs hP
  · rw [bind_of_ok hs]
    exact hf a t (h.apply hs hP)

theorem Preserves.ite {p : Prop} [Decidable p] {act act' : Act σ α} (h : Preserves P act)
    (h' : Preserves P act') : Preserves P (if p then act else act') := by
  split
  · exact h
  · exact h'

theorem Preserves.attempt (h : Preserves P act) : Preserves P (attempt act) :=
  h

protected theorem Preserves.forM {f : α → Act σ PUnit} {xs : List α} (h : ∀ x ∈ xs, Preserves P (f x)) :
    Preserves P (xs.forM f) := by
  induction xs with
  | nil => exact .pure _
  | cons x xs ih =>
    exact (h x mem_cons_self).bind fun _ => ih fun y hy => h y (mem_cons_of_mem x hy)

theorem of_lift_bind (hs : P s) (h : ∀ a, x = .ok a → P (f a s).2) : P ((lift x >>= f) s).2 := by
  cases x with
  | error e => exact hs
  | ok a => exact h a rfl

protected theorem Preserves.sleep [Clocked σ] (h : ∀ t s, P s → P (Clocked.setTime t s)) (seconds : Value) :
    Preserves P (Clocked.sleep seconds : Act σ PUnit) := by
  unfold Clocked.sleep
  split
  · refine (Preserves.lift _).bind fun x => ?_
    unfold Clocked.pause
    split
    · exact .fail _
    · split
      · exact .fail _
      · exact .modify fun s => h _ s
  · exact .fail _

/-- A computation keeps a view of its state if the view is the same afterwards, also after a fault. -/
def Keeps (view : σ → γ) (act : Act σ α) : Prop :=
  ∀ s, view (act s).2 = view s

section Keeps

variable {view : σ → γ}

theorem Keeps.preserves (h : Keeps view act) (c : γ) : Preserves (fun s => view s = c) act :=
  fun s hs => (h s).trans hs

theorem Keeps.apply (h : Keeps view act) {s s' : σ} (hs : act s = (x, s')) : view s' = view s := by
  have hview := h s
  rwa [hs] at hview

protected theorem Keeps.pure (a : α) : Keeps view (pure a : Act σ α) :=
  fun _ => rfl

protected theorem Keeps.lift (x : Outcome α) : Keeps view (lift x : Act σ α) :=
  fun _ => rfl

protected theorem Keeps.fail (f : Fault) : Keeps view (fail f : Act σ α) :=
  fun _ => rfl

protected theorem Keeps.modify {f : σ → σ} (h : ∀ s, view (f s) = view s) : Keeps view (modify f : Act σ PUnit) :=
  h

theorem Keeps.view_bind (hf : ∀ a, Keeps view (f a)) (s : σ) : view ((act >>= f) s).2 = view (act s).2 := by
  rcases hact : act s with ⟨e | a, t⟩
  · rw [bind_of_error hact]
  · rw [bind_of_ok hact, hf a t]

theorem Keeps.bind (h : Keeps view act) (hf : ∀ a, Keeps view (f a)) : Keeps view (act >>= f) :=
  fun s => (view_bind hf s).trans (h s)

theorem Keeps.attempt (h : Keeps view act) : Keeps view (attempt act) :=
  h

protected theorem Keeps.get_bind {f : σ → Act σ α} (h : ∀ s, view (f s s).2 = view s) : Keeps view (get >>= f) :=
  h

protected theorem Keeps.forM {f : β → Act σ PUnit} {xs : List β} (h : ∀ x ∈ xs, Keeps view (f x)) :
    Keeps view (xs.forM f) :=
  fun s => Preserves.forM (fun x hx => (h x hx).preserves (view s)) s rfl

end Keeps

/-! ### Faults -/

def Fails (act : Act σ α) (s : σ) : Prop :=
  ∃ f t, act s = (.error f, t)

theorem fails_iff : act.Fails s ↔ ¬∃ a t, act s = (.ok a, t) := by
  unfold Fails
  rcases act s with ⟨f | a, t⟩
  · refine iff_of_true ⟨f, t, rfl⟩ ?_
    rintro ⟨_, _, h⟩
    cases h
  · refine iff_of_false ?_ (not_not_intro ⟨a, t, rfl⟩)
    rintro ⟨_, _, h⟩
    cases h

theorem not_fails_of_eq_ok (h : act s = (.ok a, t)) : ¬act.Fails s := by
  rw [fails_iff]
  exact not_not_intro ⟨a, t, h⟩

theorem not_fails_pure (a : α) (s : σ) : ¬Fails (pure a : Act σ α) s :=
  not_fails_of_eq_ok rfl

theorem eq_ok_of_not_fails (h : ¬act.Fails s) : ∃ a t, act s = (.ok a, t) := by
  rw [fails_iff] at h
  exact not_not.mp h

theorem fails_congr {act' : Act σ α} (h : act s = act' s') : act.Fails s ↔ act'.Fails s' := by
  rw [Fails, Fails, h]

/-- What comes after the last step that can fail does not matter. -/
theorem fails_bind_iff (hf : ∀ a t, ¬(f a).Fails t) : (act >>= f).Fails s ↔ act.Fails s := by
  rcases hact : act s with ⟨e | a, t⟩
  · exact iff_of_true ⟨e, t, bind_of_error hact⟩ ⟨e, t, hact⟩
  · refine iff_of_false ?_ (not_fails_of_eq_ok hact)
    rintro ⟨e, u, h⟩
    rw [bind_of_ok hact] at h
    exact hf a t ⟨e, u, h⟩

/-! ### Mirrored computations -/

/-- Two computations *mirror* each other if, from related states, both of them succeed with the same result, and the
states after them are related, or the second one ends in a fault. The first one then ends in a fault as well, if `F`
says how faults are related, together with the states in which they leave. -/
def Mirrors {τ : Type} (R : σ → τ → Prop) (F : Option (Fault × σ → Fault × τ → Prop)) (act : Act σ α)
    (act' : Act τ α) : Prop :=
  ∀ s s', R s s' → (∃ a t t', act s = (.ok a, t) ∧ act' s' = (.ok a, t') ∧ R t t') ∨
      ∃ f' t', act' s' = (.error f', t') ∧ ∀ G ∈ F, ∃ f t, act s = (.error f, t) ∧ G (f, t) (f', t')

/-- A computation *covers* another one if it succeeds whenever the other one does. -/
abbrev Covers {τ : Type} (R : σ → τ → Prop) (act : Act σ α) (act' : Act τ α) : Prop :=
  Mirrors R none act act'

section Mirrors

variable {τ : Type} {R : σ → τ → Prop} {F : Option (Fault × σ → Fault × τ → Prop)}

theorem Mirrors.cases {act' : Act τ α} {G : Fault × σ → Fault × τ → Prop}
    (h : Mirrors R (some G) act act') {s' : τ} (hs : R s s') :
    (∃ a t t', act s = (.ok a, t) ∧ act' s' = (.ok a, t') ∧ R t t') ∨
      ∃ f f' t t', act s = (.error f, t) ∧ act' s' = (.error f', t') ∧ G (f, t) (f', t') := by
  rcases h s s' hs with hok | ⟨f', t', hact', hfault⟩
  · exact .inl hok
  · obtain ⟨f, t, hact, hG⟩ := hfault G rfl
    exact .inr ⟨f, f', t, t', hact, hact', hG⟩

theorem covers_iff {act' : Act τ α} :
    Covers R act act' ↔ ∀ s s', R s s' → ∀ a t', act' s' = (.ok a, t') → ∃ t, act s = (.ok a, t) ∧ R t t' := by
  constructor
  · intro h s s' hs a t' hact'
    rcases h s s' hs with ⟨b, t, u', hact, heq, ht⟩ | ⟨f', u', heq, -⟩ <;> cases hact'.symm.trans heq
    exact ⟨t, hact, ht⟩
  · intro h s s' hs
    rcases hact' : act' s' with ⟨f' | a, t'⟩
    · exact .inr ⟨f', t', rfl, nofun⟩
    · obtain ⟨t, hact, ht⟩ := h s s' hs a t' hact'
      exact .inl ⟨a, t, t', hact, rfl, ht⟩

theorem preserves_iff_mirrors :
    Preserves P act ↔ Mirrors (fun s s' => s = s' ∧ P s) (some fun x _ => P x.2) act act := by
  constructor
  · rintro h s _ ⟨rfl, hs⟩
    have hafter := h s hs
    rcases hact : act s with ⟨f | a, t⟩
    · rw [hact] at hafter
      exact .inr ⟨f, t, rfl, by rintro _ ⟨⟩; exact ⟨f, t, rfl, hafter⟩⟩
    · rw [hact] at hafter
      exact .inl ⟨a, t, t, rfl, rfl, rfl, hafter⟩
  · intro h s hs
    rcases h.cases ⟨rfl, hs⟩ with ⟨a, t, t', hact, -, -, ht⟩ | ⟨f, f', t, t', hact, -, ht⟩
    · rw [hact]
      exact ht
    · rw [hact]
      exact ht

protected theorem Mirrors.pure (a : α) : Mirrors R F (pure a) (pure a : Act τ α) :=
  fun s s' hs => .inl ⟨a, s, s', rfl, rfl, hs⟩

protected theorem Mirrors.modify {f : σ → σ} {f' : τ → τ} (h : ∀ s s', R s s' → R (f s) (f' s')) :
    Mirrors R F (modify f) (modify f') :=
  fun s s' hs => .inl ⟨⟨⟩, f s, f' s', rfl, rfl, h s s' hs⟩

theorem Mirrors.bind {act' : Act τ α} {f' : α → Act τ β}
    (h : Mirrors R F act act') (hf : ∀ a, Mirrors R F (f a) (f' a)) : Mirrors R F (act >>= f) (act' >>= f') := by
  intro s s' hs
  rcases h s s' hs with ⟨a, t, t', hact, hact', ht⟩ | ⟨e', t', hact', hfault⟩
  · rw [bind_of_ok hact, bind_of_ok hact']
    exact hf a t t' ht
  · refine .inr ⟨e', t', bind_of_error hact', fun G hG => ?_⟩
    obtain ⟨e, t, hact, ht⟩ := hfault G hG
    exact ⟨e, t, bind_of_error hact, ht⟩

section

variable (hF : ∀ G ∈ F, ∀ s s', R s s' → ∀ f, G (f, s) (f, s'))

include hF

protected theorem Mirrors.lift_bind {f' : α → Act τ β} (hf : ∀ a, x = .ok a → Mirrors R F (f a) (f' a)) :
    Mirrors R F (lift x >>= f) (lift x >>= f') := by
  intro s s' hs
  cases x with
  | ok a => exact hf a rfl s s' hs
  | error f => exact .inr ⟨f, s', rfl, fun G hG => ⟨f, s, rfl, hF G hG s s' hs f⟩⟩

protected theorem Mirrors.lift (x : Outcome α) : Mirrors R F (lift x) (lift x : Act τ α) := by
  intro s s' hs
  cases x with
  | ok a => exact .inl ⟨a, s, s', rfl, rfl, hs⟩
  | error f => exact .inr ⟨f, s', rfl, fun G hG => ⟨f, s, rfl, hF G hG s s' hs f⟩⟩

protected theorem Mirrors.fail (f : Fault) : Mirrors R F (fail f) (fail f : Act τ α) :=
  .lift hF (.error f)

end

protected theorem Mirrors.get_bind {f : σ → Act σ α} {f' : τ → Act τ α}
    (h : ∀ s s', R s s' → Mirrors R F (f s) (f' s')) : Mirrors R F (get >>= f) (get >>= f') :=
  fun s s' hs => h s s' hs s s' hs

protected theorem Mirrors.forM_map {f : β → Act σ PUnit} {f' : γ → Act τ PUnit} {g : β → γ} {xs : List β}
    (h : ∀ x ∈ xs, Mirrors R F (f x) (f' (g x))) : Mirrors R F (xs.forM f) ((xs.map g).forM f') := by
  induction xs with
  | nil => exact .pure _
  | cons x xs ih =>
    exact (h x mem_cons_self).bind fun _ => ih fun y hy => h y (mem_cons_of_mem x hy)

end Mirrors

end Act

/-! ### What computations ensure

There is something to say about the state after a computation whether it ends with a result or in a fault.
-/

namespace Act

variable {σ α β : Type} {act : Act σ α} {f : α → Act σ β} {s t : σ} {a : α} {Q : α → σ → Prop} {R : β → σ → Prop}
  {E : Fault → σ → Prop}

/-- From the state `s` a computation ends with a result and a state for which `Q` holds, or with a fault and a state for
which `E` holds. -/
def Ensures (act : Act σ α) (s : σ) (Q : α → σ → Prop) (E : Fault → σ → Prop) : Prop :=
  (∀ a t, act s = (.ok a, t) → Q a t) ∧ ∀ e t, act s = (.error e, t) → E e t

theorem ensures_of_eq {x : Outcome α} (h : act s = (x, t)) (hQ : ∀ a, x = .ok a → Q a t)
    (hE : ∀ e, x = .error e → E e t) : Ensures act s Q E := by
  refine ⟨fun a u hu => ?_, fun e u hu => ?_⟩
  · cases h.symm.trans hu
    exact hQ a rfl
  · cases h.symm.trans hu
    exact hE e rfl

theorem ensures_of_eq_ok (h : act s = (.ok a, t)) (hQ : Q a t) : Ensures act s Q E := by
  refine ensures_of_eq h (fun b hb => ?_) nofun
  cases hb
  exact hQ

protected theorem Ensures.pure (h : Q a s) : Ensures (pure a) s Q E :=
  ensures_of_eq_ok rfl h

protected theorem Ensures.fail {e : Fault} (h : E e s) : Ensures (fail e : Act σ α) s Q E :=
  ensures_of_eq rfl nofun (by rintro _ ⟨⟩; exact h)

theorem Ensures.mono {Q' : α → σ → Prop} {E' : Fault → σ → Prop} (h : Ensures act s Q E) (hQ : ∀ a t, Q a t → Q' a t)
    (hE : ∀ e t, E e t → E' e t) : Ensures act s Q' E' :=
  ⟨fun a t ht => hQ a t (h.1 a t ht), fun e t ht => hE e t (h.2 e t ht)⟩

/-- The second step starts with the result and from the state of the first one. -/
theorem Ensures.bind (h : Ensures act s Q E) (hf : ∀ a t, Q a t → Ensures (f a) t R E) : Ensures (act >>= f) s R E := by
  rcases hact : act s with ⟨e | a, t⟩
  · refine ⟨fun b u hb => ?_, fun e' u he => ?_⟩
    · rw [bind_of_error hact] at hb
      cases hb
    · rw [bind_of_error hact] at he
      cases he
      exact h.2 e t hact
  · refine ⟨fun b u hb => ?_, fun e u he => ?_⟩
    · rw [bind_of_ok hact] at hb
      exact (hf a t (h.1 a t hact)).1 b u hb
    · rw [bind_of_ok hact] at he
      exact (hf a t (h.1 a t hact)).2 e u he

theorem ensures_bind_of_ok (h : act s = (.ok a, t)) (hf : Ensures (f a) t R E) : Ensures (act >>= f) s R E := by
  refine Ensures.bind (Q := fun b u => b = a ∧ u = t) (ensures_of_eq_ok h ⟨rfl, rfl⟩) ?_
  rintro _ _ ⟨rfl, rfl⟩
  exact hf

protected theorem Ensures.lift_bind {x : Outcome α} (hE : ∀ e, x = .error e → E e s)
    (hf : ∀ a, x = .ok a → Ensures (f a) s R E) : Ensures (lift x >>= f) s R E := by
  cases x with
  | error e => exact .fail (hE e rfl)
  | ok a => exact hf a rfl

/-! ### Preserved properties -/

variable {P : σ → Prop}

theorem Preserves.ensures (h : Preserves P act) (hs : P s) : Ensures act s (fun _ => P) fun _ => P :=
  ⟨fun _ _ ht => h.apply ht hs, fun _ _ ht => h.apply ht hs⟩

theorem Ensures.snd (h : Ensures act s Q fun _ => P) (hQ : ∀ a t, Q a t → P t) : P (act s).2 := by
  rcases hact : act s with ⟨e | a, t⟩
  · exact h.2 e t hact
  · exact hQ a t (h.1 a t hact)

theorem preserves_of_ensures (h : ∀ s, P s → Ensures act s (fun _ => P) fun _ => P) : Preserves P act :=
  fun s hs => (h s hs).snd fun _ _ ht => ht

/-! ### Kinds of faults -/

/-- From states with a property, a computation ends in such a state or in a fault of some kind. -/
def Faults (P : σ → Prop) (F : Fault → Prop) (act : Act σ α) : Prop :=
  ∀ s, P s → Ensures act s (fun _ => P) fun e _ => F e

section Faults

variable {F : Fault → Prop}

protected theorem Faults.pure (a : α) : Faults P F (pure a : Act σ α) :=
  fun _ hs => .pure hs

protected theorem Faults.fail {e : Fault} (h : F e) : Faults P F (fail e : Act σ α) :=
  fun _ _ => .fail h

protected theorem Faults.modify {f : σ → σ} (h : ∀ s, P s → P (f s)) : Faults P F (modify f : Act σ PUnit) :=
  fun s hs => ensures_of_eq_ok rfl (h s hs)

theorem Faults.bind (h : Faults P F act) (hf : ∀ a, Faults P F (f a)) : Faults P F (act >>= f) :=
  fun s hs => (h s hs).bind fun a => hf a

protected theorem Faults.get_bind {f : σ → Act σ α} (h : ∀ s, P s → Faults P F (f s)) : Faults P F (get >>= f) :=
  fun s hs => h s hs s hs

protected theorem Faults.lift_bind {x : Outcome α} (hx : ∀ e, x = .error e → F e)
    (hf : ∀ a, x = .ok a → Faults P F (f a)) : Faults P F (lift x >>= f) :=
  fun s hs => .lift_bind hx fun a ha => hf a ha s hs

protected theorem Faults.forM {f : β → Act σ PUnit} {xs : List β} (h : ∀ x ∈ xs, Faults P F (f x)) :
    Faults P F (xs.forM f) := by
  induction xs with
  | nil => exact .pure _
  | cons x xs ih =>
    exact (h x List.mem_cons_self).bind fun _ => ih fun y hy => h y (List.mem_cons_of_mem x hy)

end Faults

/-! ### Computations by views -/

variable {ν : Type} {view : σ → ν} {v v' v'' : ν} {b : β}

/-- From every state with the view `v` a computation returns `a` and leaves the view `v'`. -/
def Yields (view : σ → ν) (act : Act σ α) (v : ν) (a : α) (v' : ν) : Prop :=
  ∀ s, view s = v → ∃ s', act s = (.ok a, s') ∧ view s' = v'

protected theorem Yields.pure (view : σ → ν) (v : ν) (a : α) : Yields view (pure a) v a v :=
  fun s hs => ⟨s, rfl, hs⟩

protected theorem Yields.lift (view : σ → ν) (v : ν) {x : Outcome α} (h : x = .ok a) : Yields view (lift x) v a v := by
  rintro s rfl
  exact ⟨s, by rw [h]; rfl, rfl⟩

theorem Yields.bind (h : Yields view act v a v') (hf : Yields view (f a) v' b v'') :
    Yields view (act >>= f) v b v'' := by
  intro s hs
  obtain ⟨t, hact, ht⟩ := h s hs
  obtain ⟨s', hs', hview⟩ := hf t ht
  exact ⟨s', (bind_of_ok hact).trans hs', hview⟩

/-- A property of views that every step keeps is kept by all of them together. -/
theorem exists_yields_forM {P : ν → Prop} {f : α → Act σ PUnit} {xs : List α}
    (h : ∀ x ∈ xs, ∀ v, P v → ∃ v', Yields view (f x) v ⟨⟩ v' ∧ P v') (hv : P v) :
    ∃ v', Yields view (xs.forM f) v ⟨⟩ v' ∧ P v' := by
  induction xs generalizing v with
  | nil => exact ⟨v, .pure _ _ _, hv⟩
  | cons x xs ih =>
    obtain ⟨v', hx, hv'⟩ := h x List.mem_cons_self v hv
    obtain ⟨v'', hxs, hv''⟩ := ih (fun y hy => h y (List.mem_cons_of_mem x hy)) hv'
    exact ⟨v'', hx.bind hxs, hv''⟩

theorem discard_of_ok (h : act s = (.ok a, t)) : (discard act : Act σ PUnit) s = (.ok ⟨⟩, t) :=
  bind_of_ok (f := fun _ => (pure ⟨⟩ : Act σ PUnit)) h

end Act

end LabBench
