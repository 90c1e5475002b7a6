import LabBench.Proofs.Sweep.Settings
/-!
# Ramps of a sweep

A smooth change takes the resource of a variable through evenly spaced values. This file says which
changes a transition and the end of a cycle make, place by place, and where each of them leaves its
resource.
-/

namespace LabBench

open List

def Value.ramp (first last : Value) (steps : Int) : Outcome (List Value) := do
  let (a, b) ← Value.matchZero first last
  Value.spaced a b steps

/-- Where a resource is left by a smooth change, if it stood somewhere before. A change that cannot be
divided into steps, and one without steps, leave it alone. -/
def Value.landing (first last : Value) (steps : Int) (stood : Option Value) : Option Value :=
  match Value.ramp first last steps with
  | .ok vs => vs.getLast?.or stood
  | .error _ => stood

theorem Resource.ramp_eq {σ : Type} [Clocked σ] (r : Resource σ) (first last : Value) (steps : Int)
    (pause : Value) (onFault : Fault → Act σ PUnit) (s : σ) : r.ramp first last steps pause onFault s =
      (Act.lift (Value.ramp first last steps) >>= r.writeAll pause onFault) s := by
  rw [Resource.ramp, Value.ramp]
  cases Value.matchZero first last with
  | error f | ok ab => rfl

/-! ### Ends of ramps -/

variable {count : Nat} {qs : List (Quantity Float)} {a b : Quantity Float}

theorem Number.getLast?_spaced (a b : Float) (hcnt : 2 ≤ count) : (Number.spaced a b count).getLast? = some b := by
  obtain ⟨m, rfl⟩ : ∃ m, count = m + 1 := ⟨count - 1, by omega⟩
  have hm : m ≠ 0 := by omega
  simp [Number.spaced, range_succ, hm]

/-- A quantity on a ramp with a step. The last of several is the end of the ramp. -/
def Quantity.onRamp (a b step : Quantity Float) (count i : Nat) : Outcome (Quantity Float) := do
  if 1 < count && i + 1 == count then return b
  let s ← step.mul (Float.ofNat i)
  s.add a

theorem Quantity.onRamp_last (a b step : Quantity Float) {m : Nat} (hm : 0 < m) :
    Quantity.onRamp a b step (m + 1) m = .ok b := by
  have hlast : (1 < m + 1 && m + 1 == m + 1) = true := by simp [hm]
  rw [Quantity.onRamp, hlast]
  rfl

theorem Quantity.onRamp_first (a b step : Quantity Float) (m : Nat) :
    Quantity.onRamp a b step (m + 1) 0 = (do (← step.mul (Float.ofNat 0)).add a) := by
  have hfst : (1 < m + 1 && 0 + 1 == m + 1) = false := by simp; omega
  rw [Quantity.onRamp, hfst]
  rfl

theorem Quantity.spaced_eq_ok (h : Quantity.spaced a b count = .ok qs) :
    ∃ step, (range count).mapM (Quantity.onRamp a b step count) = .ok qs := by
  obtain ⟨difference, -, h⟩ := Outcome.bind_eq_ok.mp h
  split at h
  · exact ⟨difference, h⟩
  · obtain ⟨step, -, h⟩ := Outcome.bind_eq_ok.mp h
    exact ⟨step, h⟩

theorem Quantity.getLast?_spaced
    (hcnt : 2 ≤ count) (h : Quantity.spaced a b count = .ok qs) : qs.getLast? = some b := by
  obtain ⟨step, h⟩ := Quantity.spaced_eq_ok h
  obtain ⟨m, rfl⟩ : ∃ m, count = m + 1 := ⟨count - 1, by omega⟩
  rw [range_succ, mapM_append] at h
  obtain ⟨front, -, h⟩ := Outcome.bind_eq_ok.mp h
  obtain ⟨back, hback, h⟩ := Outcome.bind_eq_ok.mp h
  cases h
  rw [mapM_cons, mapM_nil, Quantity.onRamp_last a b step (by omega)] at hback
  cases hback
  simp

theorem Quantity.length_spaced_one (h : Quantity.spaced a b 1 = .ok qs) : ∃ q, qs = [q] := by
  obtain ⟨step, h⟩ := Quantity.spaced_eq_ok h
  rw [show range 1 = [0] from rfl, mapM_cons, mapM_nil] at h
  obtain ⟨q, -, h⟩ := Outcome.bind_eq_ok.mp h
  cases h
  exact ⟨q, rfl⟩

namespace Value

/-- A value as it appears at the end of a ramp. Numbers are binary ones. -/
def smoothed : Value → Outcome Value
  | .quantity q => .ok (.quantity q)
  | v => (v.asFloat?.getD (.error (.plain .badType))).map .real

theorem smoothed_of_asFloat? {v : Value} {x : Float} (h : v.asFloat? = some (.ok x)) : v.smoothed = .ok (.real x) := by
  cases v with
  | quantity q => cases h
  | _ =>
    simp only [smoothed, h]
    rfl

variable {steps : Int} {vs : List Value} {first last a b : Value}

theorem spaced_eq_ok {a b : Value} (h : spaced a b steps = .ok vs) : 0 ≤ steps ∧
      ((∃ p q qs, a = .quantity p ∧ b = .quantity q ∧
          Quantity.spaced p q steps.toNat = .ok qs ∧ vs = qs.map .quantity) ∨
        ∃ x y, a.asFloat? = some (.ok x) ∧ b.asFloat? = some (.ok y) ∧
          vs = (Number.spaced x y steps.toNat).map .real) := by
  by_cases hsteps : steps < 0
  · simp only [spaced, hsteps, if_true] at h
    cases h
  · refine ⟨by omega, ?_⟩
    simp only [spaced, hsteps, if_false] at h
    split at h
    · rename_i p q
      obtain ⟨qs, hqs, h⟩ := Outcome.bind_eq_ok.mp h
      cases h
      exact Or.inl ⟨p, q, qs, rfl, rfl, hqs, rfl⟩
    · obtain ⟨_, -, h⟩ := Outcome.bind_eq_ok.mp h
      cases h
    · obtain ⟨_, -, h⟩ := Outcome.bind_eq_ok.mp h
      cases h
    · split at h
      · rename_i x y hx hy
        obtain ⟨x', hx', h⟩ := Outcome.bind_eq_ok.mp h
        obtain ⟨y', hy', h⟩ := Outcome.bind_eq_ok.mp h
        cases h
        exact Or.inr ⟨x', y', by rw [hx, hx'], by rw [hy, hy'], rfl⟩
      · cases h

section

variable (hmatch : matchZero first last = .ok (a, b))

include hmatch

theorem landing_of_ok (hspace : spaced a b steps = .ok vs)
    (stood : Option Value) : landing first last steps stood = vs.getLast?.or stood := by
  have hramp : ramp first last steps = .ok vs := by
    rw [ramp, hmatch]
    exact hspace
  rw [landing, hramp]

theorem landing_of_two_le (hspace : spaced a b steps = .ok vs) (hsteps : 2 ≤ steps) (stood : Option Value) :
    ∃ e, b.smoothed = .ok e ∧ landing first last steps stood = some e := by
  rw [landing_of_ok hmatch hspace]
  obtain ⟨-, ⟨p, q, qs, rfl, rfl, hqs, rfl⟩ | ⟨x, y, -, hy, rfl⟩⟩ := spaced_eq_ok hspace
  · refine ⟨.quantity q, rfl, ?_⟩
    rw [getLast?_map, Quantity.getLast?_spaced (by omega) hqs]
    rfl
  · refine ⟨.real y, smoothed_of_asFloat? hy, ?_⟩
    rw [getLast?_map, Number.getLast?_spaced x y (by omega)]
    rfl

/-- A ramp of one step leads nowhere but to its own start. -/
theorem landing_one (hspace : spaced a b 1 = .ok vs)
    (stood : Option Value) : ∃ e, vs = [e] ∧ landing first last 1 stood = some e := by
  rw [landing_of_ok hmatch hspace]
  obtain ⟨-, ⟨p, q, qs, rfl, rfl, hqs, rfl⟩ | ⟨x, y, -, hy, rfl⟩⟩ := spaced_eq_ok hspace
  · obtain ⟨e, rfl⟩ := Quantity.length_spaced_one hqs
    exact ⟨.quantity e, rfl, rfl⟩
  · exact ⟨_, rfl, rfl⟩

end

end Value

theorem Outcome.mapM_flatMap {α β γ : Type} {f : α → Outcome (List γ)} {p : α → List β} {g : β → Outcome γ}
    {xs : List α} {yss : List (List γ)} (hparts : ∀ x ∈ xs, ∀ ys, f x = .ok ys → (p x).mapM g = .ok ys)
    (h : xs.mapM f = .ok yss) : (xs.flatMap p).mapM g = .ok yss.flatten := by
  induction xs generalizing yss with
  | nil =>
    cases h
    rfl
  | cons x xs ih =>
    rw [mapM_cons] at h
    obtain ⟨ys, hys, h⟩ := bind_eq_ok.mp h
    obtain ⟨zs, hzs, h⟩ := bind_eq_ok.mp h
    cases h
    rw [flatMap_cons, mapM_append, hparts x mem_cons_self ys hys,
      ih (fun x' hx' => hparts x' (mem_cons_of_mem x hx')) hzs]
    rfl

namespace Sweep.Plan

variable {σ : Type} [Clocked σ] {plan : Plan σ} {ledger : Ledger σ}
  {now before : List (List Value)} {wanted : Variable → Bool}
  {ends : Variable → Value → Value → Outcome (Value × Value)} {xs : List Variable}
  {rs : List (String × Option (Resource (Run σ)))} {c : Change (Run σ)} {x : Resource (Run σ)}
  {marked : List ((Nat × Nat) × Change (Run σ))}

/-! ### Changes by place -/

section

omit [Clocked σ]

/-- A variable with its resource and the two values that the ends of a change are found from. -/
abbrev Site (σ : Type) : Type :=
  Variable × (String × Option (Resource (Run σ))) × Value × Value

/-- The change of a variable. -/
def changeOf (ends : Variable → Value → Value → Outcome (Value × Value)) (s : Site σ) : Outcome (Change (Run σ)) := do
  let (first, last) ← ends s.1 s.2.2.1 s.2.2.2
  return { name := s.2.1.1, resource := s.2.1.2, first, last, steps := s.1.smoothSteps }

/-- The variables of a group that change, each with its number. -/
def sitesOf (wanted : Variable → Bool) (xs : List Variable) (rs : List (String × Option (Resource (Run σ))))
    (vs ws : List Value) (k : Nat) : List (Site σ × Nat) :=
  ((xs.zip (rs.zip (vs.zip ws))).zipIdx k).filter fun s => !s.1.1.isConst && wanted s.1.1

theorem changesOf_eq {vs ws : List Value} (k : Nat) : changesOf wanted ends xs rs vs ws =
    (sitesOf wanted xs rs vs ws k).mapM fun s => changeOf ends s.1 := by
  fun_induction changesOf generalizing k with
  | case1 x xs name resource rs v vs w ws hskip ih =>
    have hnot : ¬(!x.isConst && wanted x) = true := by simpa [Classical.or_iff_not_imp_left] using hskip
    rw [ih (k + 1), sitesOf, sitesOf, zip_cons_cons, zip_cons_cons, zip_cons_cons, zipIdx_cons, filter_cons,
      if_neg hnot]
  | case2 x xs name resource rs v vs w ws hsmooth ih =>
    have hwant : (!x.isConst && wanted x) = true := by simpa using hsmooth
    rw [ih (k + 1), sitesOf, sitesOf, zip_cons_cons, zip_cons_cons, zip_cons_cons, zipIdx_cons, filter_cons,
      if_pos hwant, mapM_cons]
    simp [changeOf]
  | case3 xs rs vs ws hnone =>
    rcases xs with _ | ⟨x, xs⟩ <;> rcases rs with _ | ⟨r, rs⟩ <;> rcases vs with _ | ⟨v, vs⟩ <;>
      rcases ws with _ | ⟨w, ws⟩ <;> first | rfl | exact (hnone _ _ _ _ _ _ _ _ _ rfl rfl rfl rfl).elim

/-- The variables of a group of the plan that change, each with its place. -/
def sites (plan : Plan σ) (now before : List (List Value)) (wanted : Variable → Bool) (p : Nat) :
    List ((Nat × Nat) × Site σ) :=
  (sitesOf wanted (plan.groups[p]?.getD []) (plan.resources[p]?.getD []) (now[p]?.getD []) (before[p]?.getD []) 0).map
    fun s => ((p, s.2), s.1)

theorem mem_sites {p q i : Nat} {s : Site σ} : ((q, i), s) ∈ plan.sites now before wanted p ↔
    q = p ∧ (cell plan.groups p i = some s.1 ∧ cell plan.resources p i = some s.2.1 ∧ cell now p i = some s.2.2.1 ∧
      cell before p i = some s.2.2.2) ∧ s.1.isConst = false ∧ wanted s.1 = true := by
  have hcell {α : Type} (groups : List (List α)) (i : Nat) : (groups[p]?.getD [])[i]? = cell groups p i := by
    unfold cell
    cases groups[p]? <;> simp
  have hmem : ((q, i), s) ∈ plan.sites now before wanted p ↔ q = p ∧ (s, i) ∈ sitesOf wanted (plan.groups[p]?.getD [])
      (plan.resources[p]?.getD []) (now[p]?.getD []) (before[p]?.getD []) 0 := by
    simp only [sites, mem_map, Prod.mk.injEq]
    constructor
    · rintro ⟨_, h, ⟨rfl, rfl⟩, rfl⟩
      exact ⟨rfl, h⟩
    · rintro ⟨rfl, h⟩
      exact ⟨_, h, ⟨rfl, rfl⟩, rfl⟩
  rw [hmem]
  simp [sitesOf, mem_zipIdx_iff_getElem?, getElem?_zip_eq_some, hcell]

theorem nodup_sites (m n : Nat) :
    (((positionsFrom m n).flatMap fun c => plan.sites now before wanted c.toNat).map (·.1)).Nodup := by
  rw [map_flatMap, nodup_flatMap]
  constructor
  · intro c _
    have hnumbers (l : List (Site σ)) : l.zipIdx.Pairwise fun a b => a.2 ≠ b.2 :=
      pairwise_map.mp (by rw [zipIdx_map_snd]; exact nodup_range')
    exact pairwise_map.mpr (pairwise_map.mpr (((hnumbers _).filter _).imp fun hne h => hne (Prod.mk.inj h).2))
  · have hdistinct : (positionsFrom m n).Pairwise fun c c' => c.toNat ≠ c'.toNat := by
      refine pairwise_map.mpr (pairwise_lt_range.imp fun hlt => ?_)
      simp only [Int.ofNat_eq_natCast]
      omega
    refine hdistinct.imp fun hne s hs hs' => ?_
    obtain ⟨k, hk, rfl⟩ := mem_map.mp hs
    obtain ⟨k', hk', hsame⟩ := mem_map.mp hs'
    exact hne ((mem_sites.mp hk).1.symm.trans ((congrArg Prod.fst hsame).symm.trans (mem_sites.mp hk').1))

/-- A smooth change of the variable at a place of the plan, of which the ends are found from two values. -/
structure ChangeAt (plan : Plan σ) (now before : List (List Value)) (wanted : Variable → Bool)
    (ends : Variable → Value → Value → Outcome (Value × Value)) (place : Nat × Nat)
    (c : Change (Run σ)) : Prop where
  resource : cell plan.resources place.1 place.2 = some (c.name, c.resource)
  ends : ∃ y a b, cell plan.groups place.1 place.2 = some y ∧ y.isConst = false ∧ wanted y = true ∧
    cell now place.1 place.2 = some a ∧ cell before place.1 place.2 = some b ∧
    ends y a b = .ok (c.first, c.last) ∧ c.steps = y.smoothSteps

theorem changesOf_eq_mapM_sites {p : Nat} {vs ws : List Value} (hxs : elementAt plan.groups p = .ok xs)
    (hrs : elementAt plan.resources p = .ok rs) (hvs : elementAt now p = .ok vs) (hws : elementAt before p = .ok ws) :
    changesOf wanted ends xs rs vs ws = (plan.sites now before wanted p).mapM fun s => changeOf ends s.2 := by
  rw [sites, mapM_map, elementAt_natCast.mp hxs, elementAt_natCast.mp hrs, elementAt_natCast.mp hvs,
    elementAt_natCast.mp hws]
  exact changesOf_eq 0

/-- The smooth changes of the groups from one on, each with its place: every variable that is to
change does so once. -/
theorem exists_marked_of_changesAt {m n : Nat} {changes : List (Change (Run σ))}
    (h : plan.changesAt (positionsFrom m n) now before wanted ends = .ok changes) :
    ∃ marked : List ((Nat × Nat) × Change (Run σ)), changes = marked.map (·.2) ∧ (marked.map (·.1)).Nodup ∧
      (∀ k ∈ marked, m ≤ k.1.1 ∧ plan.ChangeAt now before wanted ends k.1 k.2) ∧
      ∀ p i x r v w, m ≤ p → p < n → cell plan.groups p i = some x →
        cell plan.resources p i = some r → cell now p i = some v → cell before p i = some w →
        x.isConst = false → wanted x = true → ∃ c, ((p, i), c) ∈ marked := by
  obtain ⟨groups, hgrps, h⟩ := Outcome.bind_eq_ok.mp h
  cases h
  have hsites := Outcome.mapM_flatMap (p := fun c => plan.sites now before wanted c.toNat)
    (g := fun s => changeOf ends s.2) (fun c hc changes h => ?_) hgrps
  · obtain ⟨marked, hchgs, hplaces, hmark⟩ := Outcome.exists_marked_of_mapM (·.1) hsites
    refine ⟨marked, hchgs, hplaces ▸ nodup_sites m n, ?_, ?_⟩
    · rintro ⟨place, change⟩ hk
      obtain ⟨⟨_, s⟩, hs, rfl, hchg⟩ := hmark _ hk
      obtain ⟨c, hc, hs⟩ := mem_flatMap.mp hs
      obtain ⟨p, rfl, hm, -⟩ := mem_positionsFrom.mp hc
      obtain ⟨rfl, ⟨hx, hr, hv, hw⟩, hconst, hwant⟩ := mem_sites.mp hs
      obtain ⟨⟨first, last⟩, hends, hchg⟩ := Outcome.bind_eq_ok.mp hchg
      cases hchg
      exact ⟨hm, hr, s.1, _, _, hx, hconst, hwant, hv, hw, hends, rfl⟩
    · intro p i x r v w hm hn hx hr hv hw hconst hwant
      have hmem : (p, i) ∈ marked.map (·.1) := by
        rw [hplaces]
        refine mem_map.mpr ⟨((p, i), x, r, v, w), mem_flatMap.mpr ⟨p, mem_positionsFrom.mpr ⟨p, rfl, hm, hn⟩, ?_⟩, rfl⟩
        exact mem_sites.mpr ⟨rfl, ⟨hx, hr, hv, hw⟩, hconst, hwant⟩
      obtain ⟨⟨place, c⟩, hc, rfl⟩ := mem_map.mp hmem
      exact ⟨c, hc⟩
  · obtain ⟨p, rfl, -⟩ := mem_positionsFrom.mp hc
    obtain ⟨xs, hxs, h⟩ := Outcome.bind_eq_ok.mp h
    obtain ⟨rs, hrs, h⟩ := Outcome.bind_eq_ok.mp h
    obtain ⟨vs, hvs, h⟩ := Outcome.bind_eq_ok.mp h
    obtain ⟨ws, hws, h⟩ := Outcome.bind_eq_ok.mp h
    rwa [changesOf_eq_mapM_sites hxs hrs hvs hws] at h

/-! ### Changes that cannot be made -/

theorem elementAt_of_lt {α : Type} {xs : List α} {p : Nat} (h : p < xs.length) : elementAt xs p = .ok xs[p] := by
  have hp : ¬(p : Int) < 0 := by omega
  simp only [elementAt, hp, if_false, Int.natCast_nonneg, if_true, Int.toNat_natCast, getElem?_eq_getElem h]

/-- If there are values and resources for all groups, the changes can be made unless the ends of one
of them cannot be found. -/
theorem changesAt_eq_error {m n : Nat} {f : Fault} (hgrps : n ≤ plan.groups.length)
    (hrscs : n ≤ plan.resources.length) (hnow : n ≤ now.length) (hpre : n ≤ before.length)
    (h : plan.changesAt (positionsFrom m n) now before wanted ends = .error f) :
    ∃ p i x v w, cell plan.groups p i = some x ∧ cell now p i = some v ∧ cell before p i = some w ∧
      x.isConst = false ∧ wanted x = true ∧ ends x v w = .error f := by
  rcases Outcome.bind_eq_error.mp h with h | ⟨_, -, h⟩
  · obtain ⟨c, hc, h⟩ := Outcome.exists_of_mapM_eq_error h
    obtain ⟨p, rfl, -, hp⟩ := mem_positionsFrom.mp hc
    have hxs := elementAt_of_lt (hp.trans_le hgrps)
    have hrs := elementAt_of_lt (hp.trans_le hrscs)
    have hvs := elementAt_of_lt (hp.trans_le hnow)
    have hws := elementAt_of_lt (hp.trans_le hpre)
    rw [hxs, hrs, hvs, hws] at h
    replace h := (changesOf_eq_mapM_sites hxs hrs hvs hws).symm.trans h
    obtain ⟨⟨⟨q, i⟩, s⟩, hs, hchg⟩ := Outcome.exists_of_mapM_eq_error h
    obtain ⟨-, ⟨hx, -, hv, hw⟩, hconst, hwant⟩ := mem_sites.mp hs
    rcases Outcome.bind_eq_error.mp hchg with hends | ⟨_, -, hchg⟩
    · exact ⟨p, i, s.1, _, _, hx, hv, hw, hconst, hwant, hends⟩
    · cases hchg
  · cases h

end

/-! ### Ramps -/

/-- One smooth change. If it cannot be divided into steps it is left out. -/
def rampOne (plan : Plan σ) (c : Change (Run σ)) : Act (Run σ) PUnit :=
  match c.resource with
  | none => return
  | some r => do
    let _ ← Act.attempt (r.ramp c.first c.last c.steps (.real rampPause) fun f => plan.resourceFault c.name f true)
    return

theorem rampAll_cons (c : Change (Run σ)) (changes : List (Change (Run σ))) :
    plan.rampAll (c :: changes) = (do plan.rampOne c; plan.rampAll changes) :=
  rfl

theorem rampOne_eq (c : Change (Run σ)) (r : Run σ) : plan.rampOne c r = (.ok ⟨⟩, (plan.rampOne c r).2) := by
  unfold rampOne
  cases c.resource <;> rfl

theorem rampOne_of_resource (h : c.resource = some x)
    (r : Run σ) : (plan.rampOne c r).2 = (x.ramp c.first c.last c.steps (.real rampPause)
      (fun f => plan.resourceFault c.name f true) r).2 := by
  unfold rampOne
  rw [h]
  rfl

theorem rampAll_cons_eq (c : Change (Run σ)) (changes : List (Change (Run σ))) (r : Run σ) :
    plan.rampAll (c :: changes) r = plan.rampAll changes (plan.rampOne c r).2 := by
  rw [rampAll_cons, Act.bind_of_ok (rampOne_eq c r)]

theorem rampAll_eq (changes : List (Change (Run σ))) (r : Run σ) :
    plan.rampAll changes r = (.ok ⟨⟩, (plan.rampAll changes r).2) := by
  induction changes generalizing r with
  | nil => rfl
  | cons c changes ih =>
    rw [rampAll_cons_eq]
    exact ih _

theorem rampAll_append_snd (front back : List (Change (Run σ))) (r : Run σ) :
    (plan.rampAll (front ++ back) r).2 = (plan.rampAll back (plan.rampAll front r).2).2 := by
  induction front generalizing r with
  | nil => rfl
  | cons c front ih => rw [cons_append, rampAll_cons_eq, rampAll_cons_eq, ih]

theorem sleep_rampPause (r : Run σ) :
    ∃ t, (Clocked.sleep (.real rampPause) : Act (Run σ) PUnit) r = (.ok ⟨⟩, Clocked.setTime t r) :=
  ⟨_, rfl⟩

/-! ### Where ramps leave their resources -/

/-- A world as far as ramps at other places than some go: their settings are the same, and a failure
is not forgotten. -/
structure Elsewhere (ledger : Ledger σ) (places : List (Nat × Nat)) (w w' : σ) : Prop where
  settings : ∀ q j, (q, j) ∉ places → ledger.settings w' q j = ledger.settings w q j
  failed : ledger.failed w = true → ledger.failed w' = true

omit [Clocked σ] in
theorem Elsewhere.decided (places : List (Nat × Nat)) (w : σ) : Decided ledger (Elsewhere ledger places w) :=
  fun _ _ hset hfail h => ⟨fun q j hqj => by rw [hset, h.settings q j hqj], fun hw => hfail (h.failed hw)⟩

section

variable (hnotes : plan.Notes ledger)

include hnotes

theorem rampAll_elsewhere
    (hmark : ∀ k ∈ marked, cell plan.resources k.1.1 k.1.2 = some (k.2.name, k.2.resource)) (r : Run σ) :
    Elsewhere ledger (marked.map (·.1)) r.world (plan.rampAll (marked.map (·.2)) r).2.world := by
  refine (hnotes.undisturbed (Elsewhere.decided _ _)).rampAll (fun c hc x hx v s hs => ?_) r ⟨fun _ _ _ => rfl, id⟩
  obtain ⟨k, hk, rfl⟩ := mem_map.mp hc
  obtain ⟨hset, hfail, -⟩ := hnotes.elsewhere ((hmark k hk).trans (by rw [hx])) v s
  refine ⟨fun q j hqj => ?_, fun hw => hfail (hs.failed hw)⟩
  have hne : (q, j) ≠ (k.1.1, k.1.2) := by
    rintro heq
    exact hqj (heq ▸ mem_map.mpr ⟨k, hk, rfl⟩)
  rw [hset q j hne, hs.settings q j hqj]

/-- The values of a ramp are written one after the other; the last of them stays. -/
theorem writeAll_lands {p i : Nat} {name : String}
    (hx : cell plan.resources p i = some (name, some x)) (vs : List Value)
    (r : Run σ) : ledger.failed (x.writeAll (.real rampPause) (fun f => plan.resourceFault name f true) vs
        r).2.world = true ∨
      ledger.settings (x.writeAll (.real rampPause) (fun f => plan.resourceFault name f true) vs
        r).2.world p i = vs.getLast?.or (ledger.settings r.world p i) := by
  induction vs generalizing r with
  | nil => exact Or.inr rfl
  | cons v vs ih =>
    rw [Resource.writeAll, Act.bind_of_ok (Act.attempt_eq _ _)]
    cases hwrite : (x.write v r).1 with
    | error f => exact Or.inl (hnotes.refused hx v r f hwrite)
    | ok _ =>
      obtain ⟨t, hsleep⟩ := sleep_rampPause (x.write v r).2
      have hlater : ledger.Later (x.write v r).2.world
          (Clocked.setTime t (x.write v r).2).world := hnotes.surroundings (.clock t) _
      dsimp only
      rw [Act.bind_of_ok hsleep]
      refine (ih _).imp_right fun hlast => ?_
      rw [hlast, hlater.settings, hnotes.written hx v r hwrite, getLast?_cons]
      cases vs.getLast? <;> rfl

theorem rampOne_lands {p i : Nat} (hc : cell plan.resources p i = some (c.name, c.resource))
    (hx : c.resource = some x) (r : Run σ) : ledger.failed (plan.rampOne c r).2.world = true ∨
      ledger.settings (plan.rampOne c r).2.world p i =
        Value.landing c.first c.last c.steps (ledger.settings r.world p i) := by
  rw [rampOne_of_resource hx, Resource.ramp_eq, Value.landing]
  cases Value.ramp c.first c.last c.steps with
  | error f => exact Or.inr rfl
  | ok vs => exact writeAll_lands hnotes (hc.trans (by rw [hx])) vs r

theorem rampAll_lands (hnd : (marked.map (·.1)).Nodup)
    (hmark : ∀ k ∈ marked, cell plan.resources k.1.1 k.1.2 = some (k.2.name, k.2.resource))
    (r : Run σ) {k : (Nat × Nat) × Change (Run σ)} (hk : k ∈ marked) (hx : k.2.resource = some x) :
    ledger.failed (plan.rampAll (marked.map (·.2)) r).2.world = true ∨
      ledger.settings (plan.rampAll (marked.map (·.2)) r).2.world k.1.1 k.1.2 =
        Value.landing k.2.first k.2.last k.2.steps (ledger.settings r.world k.1.1 k.1.2) := by
  obtain ⟨front, back, rfl⟩ := append_of_mem hk
  have hfront := rampAll_elsewhere hnotes (fun l hl => hmark l (mem_append_left _ hl)) r
  have hback := rampAll_elsewhere hnotes (fun l hl => hmark l (mem_append_right _ (mem_cons_of_mem _ hl)))
    (plan.rampOne k.2 (plan.rampAll (front.map (·.2)) r).2).2
  have hhere := rampOne_lands hnotes (hmark k hk) hx (plan.rampAll (front.map (·.2)) r).2
  rw [map_append, map_cons, nodup_append, nodup_cons] at hnd
  obtain ⟨-, ⟨hnotBack, -⟩, hdisjoint⟩ := hnd
  rw [map_append, map_cons, rampAll_append_snd, rampAll_cons_eq]
  refine hhere.imp hback.failed fun hlast => ?_
  rw [hback.settings _ _ hnotBack, hlast, hfront.settings _ _ fun hmem =>
    hdisjoint _ hmem _ mem_cons_self rfl]

end

end Sweep.Plan

end LabBench
