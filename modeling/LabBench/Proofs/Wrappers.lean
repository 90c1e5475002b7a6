import LabBench.Proofs.Frame
import LabBench.Resource.Basic
/-!
# Wrapped resources

A resource that is wrapped and unwrapped keeps the wrappers that were added and not removed. When it is read or written,
the value goes through their filters in this order, and is checked in front of the first and behind each of them.
-/

namespace LabBench.Resource

open Act List

variable {σ : Type} {r : Resource σ} {v w : Value} {s t : σ}

/-! ### Wrappers -/

inductive Change (σ : Type) where
  | wrap (w : Wrapper σ)
  | unwrap (name : String)

/-- A change that fails leaves the resource as it is. -/
def changed (r : Resource σ) : Change σ → Resource σ
  | .wrap w => r.wrapped w
  | .unwrap name => ((r.unwrapped name).toOption).getD r

def derived (r : Resource σ) (changes : List (Change σ)) : Resource σ :=
  changes.foldl changed r

/-- The last wrapper of a name is taken out. -/
def TakesOut (name : String) (ws ws' : List (Wrapper σ)) : Prop :=
  ∃ before w after, ws = before ++ w :: after ∧ w.name = name ∧ (∀ u ∈ after, u.name ≠ name) ∧ ws' = before ++ after

/-- The wrappers that remain after some changes. -/
inductive Remain : List (Wrapper σ) → List (Change σ) → List (Wrapper σ) → Prop
  | nil (ws) : Remain ws [] ws
  | wrap {ws changes ws'} (w : Wrapper σ) (h : Remain (ws ++ [w]) changes ws') : Remain ws (.wrap w :: changes) ws'
  | unwrap {ws ws₁ changes ws' name} (hout : TakesOut name ws ws₁) (h : Remain ws₁ changes ws') :
      Remain ws (.unwrap name :: changes) ws'
  | absent {ws changes ws' name} (hnone : ∀ w ∈ ws, w.name ≠ name) (h : Remain ws changes ws') :
      Remain ws (.unwrap name :: changes) ws'

theorem dropLastNamed?_cases (name : String) (ws : List (Wrapper σ)) :
    dropLastNamed? name ws = none ∧ (∀ w ∈ ws, w.name ≠ name) ∨
      ∃ ws', dropLastNamed? name ws = some ws' ∧ TakesOut name ws ws' := by
  induction ws with
  | nil => exact .inl ⟨rfl, by simp⟩
  | cons w ws ih =>
    rw [dropLastNamed?]
    rcases ih with ⟨hnone, hall⟩ | ⟨ws', hsome, before, u, after, rfl, hu⟩
    · rw [hnone]
      by_cases hname : w.name = name
      · exact .inr ⟨ws, by simp [hname], [], w, ws, rfl, hname, hall, rfl⟩
      · exact .inl ⟨by simp [hname], forall_mem_cons.mpr ⟨hname, hall⟩⟩
    · rw [hsome]
      obtain ⟨hname, hafter, rfl⟩ := hu
      exact .inr ⟨_, rfl, w :: before, u, after, rfl, hname, hafter, rfl⟩

theorem unwrapped_cases (r : Resource σ) (name : String) :
    (∃ f, r.unwrapped name = .error f) ∧ (∀ w ∈ r.wrappers, w.name ≠ name) ∨
      ∃ ws, r.unwrapped name = .ok { r with wrappers := ws } ∧ TakesOut name r.wrappers ws := by
  rw [unwrapped]
  rcases dropLastNamed?_cases name r.wrappers with ⟨hnone, hall⟩ | ⟨ws, hsome, hout⟩
  · rw [hnone]
    exact .inl ⟨⟨_, rfl⟩, hall⟩
  · rw [hsome]
    exact .inr ⟨ws, rfl, hout⟩

theorem exists_remain (r : Resource σ) (changes : List (Change σ)) :
    ∃ ws, Remain r.wrappers changes ws ∧ r.derived changes = { r with wrappers := ws } := by
  induction changes generalizing r with
  | nil => exact ⟨r.wrappers, .nil _, rfl⟩
  | cons change changes ih =>
    rw [derived, foldl_cons, ← derived]
    cases change with
    | wrap w =>
      obtain ⟨ws, hremain, heq⟩ := ih (r.wrapped w)
      exact ⟨ws, .wrap w hremain, heq⟩
    | unwrap name =>
      rw [changed]
      rcases r.unwrapped_cases name with ⟨⟨f, hf⟩, hall⟩ | ⟨ws₁, hok, hout⟩
      · rw [hf]
        obtain ⟨ws, hremain, heq⟩ := ih r
        exact ⟨ws, .absent hall hremain, heq⟩
      · rw [hok]
        obtain ⟨ws, hremain, heq⟩ := ih { r with wrappers := ws₁ }
        exact ⟨ws, .unwrap hout hremain, heq⟩

/-! ### Values -/

/-- A value of the right dimension: without a unit it is no quantity. -/
def Matches (units : Option String) (v : Value) : Prop :=
  (units = none ∧ ∀ q, v ≠ .quantity q) ∨ ∃ u q, units = some u ∧ v = .quantity q ∧ q.hasUnits u = .ok true

/-- A value goes through filters one after the other, and matches the units behind each of them. -/
inductive Passes (units : Option String) : List (Option (Value → Act σ Value)) → Value → σ → Value → σ → Prop
  | nil (v : Value) (s : σ) : Passes units [] v s v s
  | none {fs v s w t} (h : Passes units fs v s w t) : Passes units (none :: fs) v s w t
  | some {f fs v s u s' w t} (hf : f v s = (.ok u, s')) (hu : Matches units u) (h : Passes units fs u s' w t) :
      Passes units (some f :: fs) v s w t

def Permits (r : Resource σ) (v : Value) : Prop :=
  ∀ choice, r.allowed = some choice → choice.has v = .ok true

theorem verify_eq_ok_iff : r.verify v = .ok ⟨⟩ ↔ Matches r.units v := by
  unfold verify Matches
  cases r.units with
  | none => cases v <;> simp [pure, Except.pure]
  | some u =>
    cases v with
    | quantity q => 
      rcases hunits : q.hasUnits u with f | _ | _ <;> simp [hunits, bind, Except.bind, pure, Except.pure]
    | _ => simp

theorem checkAllowed_eq_ok_iff : r.checkAllowed v = .ok ⟨⟩ ↔ r.Permits v := by
  unfold checkAllowed Permits
  cases r.allowed with
  | none => simp [pure, Except.pure]
  | some choice => rcases hhas : choice.has v with f | _ | _ <;> simp [hhas, bind, Except.bind, pure, Except.pure]

theorem verify_bind_eq_ok_iff {α : Type} {f : PUnit → Act σ α} {a : α} :
    (Act.lift (r.verify v) >>= f) s = (.ok a, t) ↔ Matches r.units v ∧ f ⟨⟩ s = (.ok a, t) := by
  rw [lift_bind_eq_ok, ← verify_eq_ok_iff]
  exact ⟨fun ⟨_, h⟩ => h, fun h => ⟨⟨⟩, h⟩⟩

theorem passThrough_eq_ok_iff {fs : List (Option (Value → Act σ Value))} :
    r.passThrough fs v s = (.ok w, t) ↔ Passes r.units fs v s w t := by
  induction fs generalizing v s with
  | nil =>
    rw [passThrough, pure_eq_ok]
    constructor
    · rintro ⟨rfl, rfl⟩
      exact .nil _ _
    · rintro ⟨⟩
      exact ⟨rfl, rfl⟩
  | cons f fs ih =>
    cases f with
    | none =>
      rw [passThrough, ih]
      exact ⟨.none, fun | .none h => h⟩
    | some f =>
      rw [passThrough, bind_eq_ok]
      simp only [verify_bind_eq_ok_iff, ih]
      constructor
      · rintro ⟨u, s', hf, hu, h⟩
        exact .some hf hu h
      · rintro (_ | _ | ⟨hf, hu, h⟩)
        exact ⟨_, _, hf, hu, h⟩

theorem read_eq_ok_iff : r.read s = (.ok w, t) ↔ ∃ get v s', r.getter = some get ∧ get s = (.ok v, s') ∧
    Matches r.units v ∧ Passes r.units (r.wrappers.map (·.onRead)) v s' w t := by
  unfold read
  cases r.getter with
  | none => exact ⟨nofun, nofun⟩
  | some get =>
    rw [bind_eq_ok]
    simp [verify_bind_eq_ok_iff, passThrough_eq_ok_iff]

/-- All that is done to a value before it is written. -/
def prepared (r : Resource σ) (v : Value) : Act σ Value := do
  Act.lift (r.verify v)
  let w ← r.passThrough (r.wrappers.map (·.onWrite)) v
  Act.lift (r.checkAllowed w)
  return w

/-- The value that is to be written, in the state in which this is done. -/
def Delivers (r : Resource σ) (v : Value) (s : σ) (w : Value) (t : σ) : Prop :=
  Matches r.units v ∧ Passes r.units (r.wrappers.map (·.onWrite)) v s w t ∧ r.Permits w

theorem prepared_eq_ok_iff : r.prepared v s = (.ok w, t) ↔ r.Delivers v s w t := by
  rw [prepared, verify_bind_eq_ok_iff, bind_eq_ok, Delivers]
  refine and_congr_right fun _ => ?_
  simp only [passThrough_eq_ok_iff, ← checkAllowed_eq_ok_iff]
  constructor
  · rintro ⟨u, s', hpass, h⟩
    obtain ⟨_, hu, h⟩ := lift_bind_eq_ok.mp h
    obtain ⟨rfl, rfl⟩ := pure_eq_ok.mp h
    exact ⟨hpass, hu⟩
  · rintro ⟨hpass, hw⟩
    exact ⟨w, t, hpass, lift_bind_eq_ok.mpr ⟨⟨⟩, hw, rfl⟩⟩

theorem write_eq {put : Value → Act σ PUnit} (h : r.setter = some put) (v : Value) :
    r.write v = r.prepared v >>= put := by
  simp [write, h, prepared]

/-- However a resource has been wrapped and unwrapped, only its wrappers are others: those that remain. When it is
written, the value behind all filters goes to the setter, or there is a fault before that. When it is read, the value
behind all filters is given. -/
theorem derived_spec (r : Resource σ) (changes : List (Change σ)) : ∃ ws, Remain r.wrappers changes ws ∧
    r.derived changes = { r with wrappers := ws } ∧
    (∀ name, (∃ f, (r.derived changes).unwrapped name = .error f) ↔ ∀ w ∈ ws, w.name ≠ name) ∧
    (∀ put, r.setter = some put → ∀ v s,
      (∃ w t, (r.derived changes).Delivers v s w t ∧ (r.derived changes).write v s = put w t) ∨
        (¬∃ w t, (r.derived changes).Delivers v s w t) ∧ ∃ f t, (r.derived changes).prepared v s = (.error f, t) ∧
          (r.derived changes).write v s = (.error f, t)) ∧
    ∀ s w t, (r.derived changes).read s = (.ok w, t) ↔ ∃ get v s', r.getter = some get ∧ get s = (.ok v, s') ∧
      Matches r.units v ∧ Passes r.units (ws.map (·.onRead)) v s' w t := by
  obtain ⟨ws, hremain, heq⟩ := r.exists_remain changes
  rw [heq]
  refine ⟨ws, hremain, rfl, fun name => ?_, fun put hput v s => ?_, fun s w t => read_eq_ok_iff⟩
  · rcases unwrapped_cases { r with wrappers := ws } name with ⟨hf, hall⟩ | ⟨ws', hok, before, w, after, rfl, hw, -⟩
    · exact ⟨fun _ => hall, fun _ => hf⟩
    · refine ⟨?_, fun hall => absurd hw (hall w (by simp))⟩
      rintro ⟨f, hf⟩
      cases hf.symm.trans hok
  · rw [write_eq (r := { r with wrappers := ws }) hput]
    simp only [← prepared_eq_ok_iff]
    rcases hprep : prepared { r with wrappers := ws } v s with ⟨f | w, t⟩
    · exact .inr ⟨nofun, f, t, rfl, bind_of_error hprep⟩
    · exact .inl ⟨w, t, rfl, bind_of_ok hprep⟩

end LabBench.Resource
