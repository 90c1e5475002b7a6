import LabBench.Sweep.Condition
import Mathlib.Algebra.BigOperators.Group.List.Basic
import Mathlib.Data.List.Dedup
import Mathlib.Data.List.SplitBy
import Mathlib.Data.List.Sort
import Mathlib.Order.Lattice.Nat
import LabBench.Sweep.Dial
/-!
# Groups of equal order

Sorting by order and cutting the sorted list where the order changes gives one group for every order
that occurs, from the highest order to the lowest. A group holds the members of its order as they
come in the list.

## Main results

* `arrange_law`
-/

namespace LabBench.Sweep

open List

variable {α : Type} {o : Int} {xs : List α} {order : α → Int} {all : List Variable}

/-- The orders that occur in a list, from the highest to the lowest. -/
def ordersOf (order : α → Int) (xs : List α) : List Int :=
  (xs.map order).dedup.mergeSort fun a b => decide (b ≤ a)

def ofOrder (order : α → Int) (xs : List α) (o : Int) : List α :=
  xs.filter fun x => order x == o

theorem mem_ofOrder {x : α} : x ∈ ofOrder order xs o ↔ x ∈ xs ∧ order x = o := by
  simp [ofOrder]

theorem mem_ordersOf : o ∈ ordersOf order xs ↔ ∃ x ∈ xs, order x = o := by
  simp [ordersOf]

theorem ofOrder_ne_nil (ho : o ∈ ordersOf order xs) : ofOrder order xs o ≠ [] := by
  obtain ⟨x, hx, hxo⟩ := mem_ordersOf.mp ho
  exact ne_nil_of_mem (mem_ofOrder.mpr ⟨hx, hxo⟩)

theorem map_head?_ofOrder (ho : o ∈ ordersOf order xs) : (ofOrder order xs o).head?.map order = some o := by
  obtain ⟨x, rest, hcons⟩ := exists_cons_of_ne_nil (ofOrder_ne_nil ho)
  have hx : x ∈ ofOrder order xs o := hcons ▸ mem_cons_self
  rw [hcons]
  exact congrArg some (mem_ofOrder.mp hx).2

/-! ### Sorting by order -/

/-- The list from the highest order to the lowest. -/
private def descending (order : α → Int) (xs : List α) : List α :=
  xs.mergeSort fun a b => decide (order b ≤ order a)

private theorem pairwise_descending (order : α → Int) (xs : List α) :
    (descending order xs).Pairwise fun a b => order b ≤ order a := by
  have h := @pairwise_mergeSort α (fun a b => decide (order b ≤ order a))
    (fun a b c hab hbc => by simp only [decide_eq_true_eq] at *; omega)
    (fun a b => by simp only [Bool.or_eq_true, decide_eq_true_eq]; omega) xs
  exact h.imp fun hab => of_decide_eq_true hab

private theorem ofOrder_descending (order : α → Int) (xs : List α) (o : Int) :
    ofOrder order (descending order xs) o = ofOrder order xs o := by
  have heq : (ofOrder order xs o).Pairwise fun a b => decide (order b ≤ order a) = true := by
    refine pairwise_of_forall_mem_list fun a ha b hb => ?_
    simp only [ofOrder, mem_filter, beq_iff_eq] at ha hb
    simp [ha.2, hb.2]
  have hsub : (ofOrder order xs o).Sublist (descending order xs) := sublist_mergeSort
      (fun a b c hab hbc => by simp only [decide_eq_true_eq] at *; omega)
      (fun a b => by simp only [Bool.or_eq_true, decide_eq_true_eq]; omega)
      heq filter_sublist
  have hfilt : (ofOrder order xs o).Sublist (ofOrder order (descending order xs) o) := by
    have h := hsub.filter fun x => order x == o
    simpa only [ofOrder, filter_filter, Bool.and_self] using h
  have hperm := (mergeSort_perm xs fun a b => decide (order b ≤ order a)).filter fun x => order x == o
  exact (hfilt.eq_of_length hperm.length_eq.symm).symm

private theorem eq_ofOrder_append {ys : List α}
    (hsort : ys.Pairwise fun a b => order b ≤ order a) (hle : ∀ y ∈ ys, order y ≤ o) :
    ys = ofOrder order ys o ++ ys.filter fun y => !(order y == o) := by
  induction ys with
  | nil => rfl
  | cons y ys ih =>
    rw [pairwise_cons] at hsort
    have hrest := ih hsort.2 fun z hz => hle z (mem_cons_of_mem y hz)
    by_cases hy : order y = o
    · simp only [ofOrder, filter_cons, hy, beq_self_eq_true, if_true, Bool.not_true,
        Bool.false_eq_true, if_false, cons_append, cons.injEq, true_and]
      exact hrest
    · have hlt : ∀ z ∈ y :: ys, order z ≠ o := by
        intro z hz
        have hyo := hle y mem_cons_self
        rcases mem_cons.mp hz with rfl | hz
        · exact hy
        · have := hsort.1 z hz
          omega
      have hnone : ofOrder order (y :: ys) o = [] := filter_eq_nil_iff.mpr fun z hz => by simpa using hlt z hz
      have hall : (y :: ys).filter (fun z => !(order z == o)) = y :: ys :=
        filter_eq_self.mpr fun z hz => by simpa using hlt z hz
      rw [hnone, hall, nil_append]

private theorem flatten_map_ofOrder {os : List Int} {ys : List α}
    (hos : os.Pairwise fun a b => b < a) (hsort : ys.Pairwise fun a b => order b ≤ order a)
    (hmem : ∀ y ∈ ys, order y ∈ os) : (os.map (ofOrder order ys)).flatten = ys := by
  induction os generalizing ys with
  | nil =>
    have hys : ys = [] := eq_nil_iff_forall_not_mem.mpr fun y hy => by simpa using hmem y hy
    rw [hys]
    rfl
  | cons o os ih =>
    rw [pairwise_cons] at hos
    have hle : ∀ y ∈ ys, order y ≤ o := by
      intro y hy
      rcases mem_cons.mp (hmem y hy) with h | h
      · exact h.le
      · exact (hos.1 _ h).le
    set rest := ys.filter fun y => !(order y == o) with hrest
    have hsame : os.map (ofOrder order ys) = os.map (ofOrder order rest) := by
      refine map_congr_left fun p hp => ?_
      rw [hrest, ofOrder, ofOrder, filter_filter]
      refine filter_congr fun y _ => ?_
      have hpo := hos.1 p hp
      by_cases hy : order y = p
      · simp [hy, hpo.ne]
      · simp [hy]
    have hih : (os.map (ofOrder order rest)).flatten = rest := by
      refine ih hos.2 (hsort.sublist filter_sublist) fun y hy => ?_
      simp only [hrest, mem_filter, Bool.not_eq_true', beq_eq_false_iff_ne] at hy
      exact (mem_cons.mp (hmem y hy.1)).resolve_left hy.2
    rw [map_cons, flatten_cons, hsame, hih, ← eq_ofOrder_append hsort hle]

theorem pairwise_ordersOf (order : α → Int) (xs : List α) : (ordersOf order xs).Pairwise fun a b => b < a := by
  have hsort : (ordersOf order xs).Pairwise fun a b => b ≤ a := by
    have h := pairwise_descending id (xs.map order).dedup
    exact h
  have hnd : (ordersOf order xs).Nodup := (mergeSort_perm _ _).nodup_iff.mpr (nodup_dedup _)
  refine (hsort.and hnd).imp ?_
  rintro a b ⟨hle, hne⟩
  omega

/-! ### Groups -/

/-- There is one group for every order that occurs, from the highest to the lowest, and it holds the
members of this order as they come in the list. -/
theorem byOrder_eq_map_ofOrder (order : α → Int) (xs : List α) :
    byOrder order xs = (ordersOf order xs).map (ofOrder order xs) := by
  have hmem : ∀ y ∈ descending order xs, order y ∈ ordersOf order xs := fun y hy =>
    mem_ordersOf.mpr ⟨y, mem_mergeSort.mp hy, rfl⟩
  have hflat := flatten_map_ofOrder (pairwise_ordersOf order xs) (pairwise_descending order xs) hmem
  rw [map_congr_left fun o _ => ofOrder_descending order xs o] at hflat
  refine splitBy_eq_iff.mpr ⟨hflat.symm, ?_, ?_, ?_⟩
  · rw [mem_map]
    rintro ⟨o, ho, hnil⟩
    exact ofOrder_ne_nil ho hnil
  · intro m hm
    obtain ⟨o, -, rfl⟩ := mem_map.mp hm
    refine Pairwise.isChain (pairwise_of_forall_mem_list fun a ha b hb => ?_)
    simp only [ofOrder, mem_filter, beq_iff_eq] at ha hb
    simp [ha.2, hb.2]
  · refine Pairwise.isChain (pairwise_map.mpr ?_)
    refine (pairwise_ordersOf order xs).imp_of_mem fun {o p} ho hp hlt => ?_
    refine ⟨ofOrder_ne_nil ho, ofOrder_ne_nil hp, ?_⟩
    have hlast := (mem_ofOrder.mp (getLast_mem (ofOrder_ne_nil ho))).2
    have hhead := (mem_ofOrder.mp (head_mem (ofOrder_ne_nil hp))).2
    rw [hlast, hhead, beq_eq_false_iff_ne]
    exact hlt.ne'

/-! ### The arrangement of a sweep -/

/-- The variables of a sweep that stand at their constants. -/
def constantsOf (all : List Variable) : List Variable :=
  all.filter fun x => x.enabled && x.isConst

/-- The variables of a sweep that take the values of their spans. -/
def movingOf (all : List Variable) : List Variable :=
  all.filter fun x => x.enabled && !x.isConst

theorem mem_constantsOf {x : Variable} : x ∈ constantsOf all ↔ x ∈ all ∧ x.enabled = true ∧ x.isConst = true := by
  simp [constantsOf]

theorem mem_movingOf {x : Variable} : x ∈ movingOf all ↔ x ∈ all ∧ x.enabled = true ∧ x.isConst = false := by
  simp [movingOf]

theorem filter_isConst (all : List Variable) : (all.filter (·.enabled)).filter (·.isConst) = constantsOf all := by
  simp [constantsOf, filter_filter, Bool.and_comm]

theorem filter_not_isConst (all : List Variable) : (all.filter (·.enabled)).filter (!·.isConst) = movingOf all := by
  simp [movingOf, filter_filter, Bool.and_comm]

/-- The groups of a sweep: the constants, if there are any, and one group for every order, from the
highest to the lowest. -/
def groupsOf (all : List Variable) : List (List Variable) :=
  (if constantsOf all = [] then [] else [constantsOf all]) ++
    (ordersOf Variable.order (movingOf all)).map (ofOrder Variable.order (movingOf all))

theorem nil_notMem_groupsOf (all : List Variable) : [] ∉ groupsOf all := by
  intro h
  rcases mem_append.mp h with h | h
  · split at h <;> simp_all
  · obtain ⟨o, ho, hnil⟩ := mem_map.mp h
    exact ofOrder_ne_nil ho hnil

theorem arrange_fst (all : List Variable) : (arrange all).1 = groupsOf all := by
  simp only [arrange, filter_isConst, filter_not_isConst, byOrder_eq_map_ofOrder]
  split
  · rename_i hnone
    rw [List.isEmpty_iff] at hnone
    simp [groupsOf, ← filter_isConst, ← filter_not_isConst, hnone, ordersOf]
  · unfold groupsOf
    cases constantsOf all <;> simp

/-- A group has as many values as its shortest member. -/
theorem isLeast_groupLength {length : α → Nat} (hne : xs ≠ []) :
    IsLeast {n | ∃ x ∈ xs, length x = n} (groupLength length xs) := by
  induction xs with
  | nil => exact absurd rfl hne
  | cons x xs ih =>
    cases xs with
    | nil => simp [groupLength, IsLeast, lowerBounds]
    | cons y ys =>
      obtain ⟨⟨z, hz, hlen⟩, hle⟩ := ih (cons_ne_nil y ys)
      rw [groupLength]
      · constructor
        · rcases min_choice (length x) (groupLength length (y :: ys)) with h | h
          · exact ⟨x, mem_cons_self, h.symm⟩
          · exact ⟨z, mem_cons_of_mem x hz, hlen.trans h.symm⟩
        · rintro n ⟨w, hw, rfl⟩
          rcases mem_cons.mp hw with rfl | hw
          · exact min_le_left ..
          · exact (min_le_right ..).trans (hle ⟨w, hw, rfl⟩)
      · exact cons_ne_nil y ys

theorem groupLength_eq_one {length : α → Nat} (hne : xs ≠ [])
    (h : ∀ x ∈ xs, length x = 1) : groupLength length xs = 1 := by
  obtain ⟨x, hx, hlen⟩ := (isLeast_groupLength hne).1
  exact hlen.symm.trans (h x hx)

/-- The constants have one row, so that they do not count. -/
theorem arrange_snd (h : ∃ x ∈ all, x.enabled = true) :
    (arrange all).2 = ((groupsOf all).map (groupLength Variable.length)).prod := by
  have hsome : (all.filter (·.enabled)).isEmpty = false := by
    obtain ⟨x, hx, henabled⟩ := h
    exact isEmpty_eq_false_iff.mpr (ne_nil_of_mem (mem_filter.mpr ⟨hx, henabled⟩))
  simp only [arrange, filter_not_isConst, hsome, Bool.false_eq_true, if_false, combinations,
    byOrder_eq_map_ofOrder, ← prod_eq_foldl]
  unfold groupsOf
  split
  · simp
  · rename_i hconsts
    have hone : groupLength Variable.length (constantsOf all) = 1 := by
      refine groupLength_eq_one hconsts fun x hx => ?_
      simp [Variable.length, (mem_constantsOf.mp hx).2.2]
    simp [hone]

/-! ### The law of groups -/

/-- One group for every order that occurs, from the highest order to the lowest, with the members of this order as they
come in the list. -/
def Grouped (order : α → Int) (xs : List α) (groups : List (List α)) : Prop :=
  ∃ orders : List Int, orders.Pairwise (· > ·) ∧ (∀ o, o ∈ orders ↔ ∃ x ∈ xs, order x = o) ∧
    groups = orders.map fun o => xs.filter fun x => order x == o

theorem grouped_byOrder (order : α → Int) (xs : List α) : Grouped order xs (byOrder order xs) :=
  ⟨ordersOf order xs, pairwise_ordersOf order xs, fun _ => mem_ordersOf, byOrder_eq_map_ofOrder order xs⟩

theorem flatten_byOrder_perm (order : α → Int) (xs : List α) : (byOrder order xs).flatten.Perm xs := by
  rw [byOrder, flatten_splitBy]
  exact mergeSort_perm xs _

theorem combinations_byOrder (length : α → Nat) : combinations length (byOrder order xs) =
      ((byOrder order xs).map fun g => sInf {n | ∃ x ∈ g, length x = n}).prod := by
  rw [combinations, ← prod_eq_foldl]
  congr 1
  refine map_congr_left fun g hg => (isLeast_groupLength ?_).csInf_eq.symm
  rintro rfl
  exact nil_notMem_splitBy _ _ hg

/-- The groups of a sweep hold every variable that is enabled once and nothing else: all constants first, and then the
others by their orders. The values of the others are combined, and a group ends with its shortest member. Guards are
grouped in the same way, without constants. -/
theorem arrange_law {σ : Type} (all : List Variable) (guards : List (Guard σ)) :
    (arrange all).1.flatten.Perm (all.filter (·.enabled)) ∧
    (∃ groups, Grouped Variable.order (movingOf all) groups ∧
      (arrange all).1 = (if constantsOf all = [] then [] else [constantsOf all]) ++ groups ∧
      (arrange all).2 = if all.filter (·.enabled) = [] then 0
        else (groups.map fun g => sInf {n | ∃ x ∈ g, x.length = n}).prod) ∧
    (arrangeGuards guards).flatten.Perm (guards.filter (·.enabled)) ∧
    Grouped Guard.order (guards.filter (·.enabled)) (arrangeGuards guards) := by
  have hfst : (arrange all).1 =
      (if constantsOf all = [] then [] else [constantsOf all]) ++ byOrder Variable.order (movingOf all) := by
    rw [arrange_fst, groupsOf, byOrder_eq_map_ofOrder]
  refine ⟨?_, ⟨byOrder Variable.order (movingOf all), grouped_byOrder .., hfst, ?_⟩, flatten_byOrder_perm ..,
    grouped_byOrder ..⟩
  · have hfront : (if constantsOf all = [] then [] else [constantsOf all]).flatten = constantsOf all := by
      split <;> simp_all
    rw [hfst, flatten_append, hfront]
    refine (Perm.append_left _ (flatten_byOrder_perm ..)).trans ?_
    rw [← filter_isConst, ← filter_not_isConst]
    exact filter_append_perm ..
  · rw [← combinations_byOrder]
    simp only [arrange, filter_not_isConst, List.isEmpty_iff]
    split <;> rfl

/-! ### Periods of orders

An order is through with its values after as many items as there are choices of rows of all groups
that are not above it.
-/

namespace Periods

open List

/-- The number of choices of rows of all groups that are not above an order, where the orders of the
groups are given with their lengths. -/
def periodOf (lengths : List (Int × Nat)) (order : Int) : Nat :=
  ((lengths.filter fun e => e.1 ≤ order).map (·.2)).prod

/-- A table with the periods of the orders of groups and of further orders. -/
structure Exact (lengths : List (Int × Nat)) (orders : List Int) (periods : Periods) : Prop where
  ascending : periods.Pairwise fun a b => a.1 < b.1
  mem_iff : ∀ o, o ∈ periods.map (·.1) ↔ o ∈ lengths.map (·.1) ∨ o ∈ orders
  period : ∀ e ∈ periods, e.2 = periodOf lengths e.1

variable {lengths : List (Int × Nat)} {orders : List Int} {periods low high : Periods} {order : Int}

/-! ### Orders of groups -/

private theorem ofLengths_eq_map (h : lengths.Pairwise fun a b => a.1 < b.1) (before : Nat) :
    ofLengths before lengths = lengths.map fun e => (e.1, before * periodOf lengths e.1) := by
  induction lengths generalizing before with
  | nil => rfl
  | cons e rest ih =>
    obtain ⟨o, l⟩ := e
    rw [pairwise_cons] at h
    have hhead : periodOf ((o, l) :: rest) o = l := by
      have hnone : rest.filter (fun e => decide (e.1 ≤ o)) = [] := filter_eq_nil_iff.mpr fun e he => by
          have := h.1 e he
          simp only [decide_eq_true_eq]
          omega
      simp [periodOf, hnone]
    have htail : ∀ e ∈ rest, periodOf ((o, l) :: rest) e.1 = l * periodOf rest e.1 := by
      intro e he
      have hle : o ≤ e.1 := (h.1 e he).le
      simp [periodOf, hle]
    rw [ofLengths, ih h.2, map_cons, hhead]
    refine congrArg _ (map_congr_left fun e he => ?_)
    rw [htail e he, Nat.mul_assoc]

theorem exact_ofLengths (h : lengths.Pairwise fun a b => a.1 < b.1) : Exact lengths [] (ofLengths 1 lengths) := by
  rw [ofLengths_eq_map h]
  refine ⟨pairwise_map.mpr h, fun o => by simp, fun e he => ?_⟩
  obtain ⟨e', he', rfl⟩ := mem_map.mp he
  exact Nat.one_mul _

/-! ### Further orders -/

theorem exists_append (h : periods.Pairwise fun a b => a.1 < b.1) (hnew : order ∉ periods.map (·.1)) :
    ∃ low high, periods = low ++ high ∧ (∀ e ∈ low, e.1 < order) ∧ ∀ e ∈ high, order < e.1 := by
  induction periods with
  | nil => exact ⟨[], [], rfl, nofun, nofun⟩
  | cons e rest ih =>
    obtain ⟨hfst, hrest⟩ := pairwise_cons.mp h
    rw [map_cons, mem_cons, not_or] at hnew
    rcases lt_or_gt_of_ne hnew.1 with hlt | hgt
    · exact ⟨[], e :: rest, rfl, nofun, forall_mem_cons.mpr ⟨hlt, fun e' he' => hlt.trans (hfst e' he')⟩⟩
    · obtain ⟨low, high, rfl, hlow, hhigh⟩ := ih hrest hnew.2
      exact ⟨e :: low, high, rfl, forall_mem_cons.mpr ⟨hgt, hlow⟩, hhigh⟩

section

variable (h : (low ++ high).Pairwise fun a b => a.1 < b.1) (hlow : ∀ e ∈ low, e.1 < order)
  (hhigh : ∀ e ∈ high, order < e.1)

include h hlow hhigh

theorem ascending_insert (period : Nat) : (low ++ (order, period) :: high).Pairwise fun a b => a.1 < b.1 := by
  rw [pairwise_append] at h ⊢
  exact ⟨h.1, pairwise_cons.mpr ⟨hhigh, h.2.1⟩, fun e he => forall_mem_cons.mpr ⟨hlow e he, h.2.2 e he⟩⟩

/-- A new order stands between the lower ones and the higher ones. -/
theorem add_append : add (low ++ high) order = low ++ (order,
      if low.length > 0 then ((low ++ high).map (·.2)).getD (low.length - 1) 1 else 1) :: high := by
  have hlow' : order ∉ low.map (·.1) := by
    simpa using fun n hn => lt_irrefl order (hlow (order, n) hn)
  have hhigh' : order ∉ high.map (·.1) := by
    simpa using fun n hn => lt_irrefl order (hhigh (order, n) hn)
  have hnew : ¬Entries.has order (low ++ high) = true := by
    rw [Entries.has_iff_mem_keys, map_append, mem_append]
    tauto
  have hsort : ((low ++ high).map (·.1) ++ [order]).mergeSort (fun a b => decide (a ≤ b)) =
      low.map (·.1) ++ order :: high.map (·.1) := by
    refine @Perm.eq_of_pairwise Int (· ≤ ·) _ _ (fun a b _ _ => le_antisymm) ?_ ?_ ?_
    · simpa using @pairwise_mergeSort Int (fun a b => decide (a ≤ b)) (by simp; omega) (by simp; omega) _
    · simpa using pairwise_map.mpr ((ascending_insert h hlow hhigh 0).imp le_of_lt)
    · rw [map_append, append_assoc]
      exact (mergeSort_perm _ _).trans ((perm_append_singleton order _).append_left _)
  have hindex : (low.map (·.1) ++ order :: high.map (·.1)).idxOf order = low.length := by
    rw [idxOf_append_of_notMem hlow', idxOf_cons_self, length_map, Nat.add_zero]
  have hinsert (period : Nat) : ((low ++ high).map (·.2)).insertIdx low.length period =
      low.map (·.2) ++ period :: high.map (·.2) := by
    clear hsort hindex hnew hlow' hlow h
    induction low with
    | nil => rfl
    | cons e low ih => exact congrArg (e.2 :: ·) ih
  have hzip (es : Periods) : (es.map (·.1)).zip (es.map (·.2)) = es := by
    rw [zip_map', map_id']
  simp only [add, if_neg hnew, hsort, hindex, hinsert]
  rw [zip_append (by rw [length_map, length_map]), zip_cons_cons, hzip, hzip]

end

namespace Exact

section

variable (h : Exact lengths orders periods)

include h

/-- The orders of the groups between an order of the table and the next one are none. -/
private theorem periodOf_eq {order : Int} {e : Int × Nat}
    (he : e ∈ periods) (hle : e.1 ≤ order) (hmax : ∀ e' ∈ periods, e'.1 ≤ e.1 ∨ order < e'.1) :
    periodOf lengths order = e.2 := by
  have hsame : lengths.filter (fun l => decide (l.1 ≤ order)) = lengths.filter fun l => decide (l.1 ≤ e.1) := by
    refine filter_congr fun l hl => ?_
    obtain ⟨e', he', heq⟩ :=
      mem_map.mp ((h.mem_iff l.1).mpr (Or.inl (mem_map_of_mem hl)))
    have hnear := hmax e' he'
    rw [heq] at hnear
    rw [decide_eq_decide]
    omega
  rw [h.period e he, periodOf, periodOf, hsame]

theorem add (order : Int) : Exact lengths (orders ++ [order]) (periods.add order) := by
  by_cases hold : order ∈ periods.map (·.1)
  · rw [Periods.add, if_pos (Entries.has_iff_mem_keys.mpr hold)]
    refine ⟨h.ascending, fun o => ?_, h.period⟩
    rw [h.mem_iff] at hold
    rw [h.mem_iff, mem_append, mem_singleton]
    constructor
    · tauto
    · rintro (ho | ho | rfl)
      · exact Or.inl ho
      · exact Or.inr ho
      · exact hold
  · obtain ⟨low, high, rfl, hlow, hhigh⟩ := exists_append h.ascending hold
    rw [add_append h.ascending hlow hhigh]
    refine ⟨ascending_insert h.ascending hlow hhigh _, fun o => ?_, ?_⟩
    · have hmem := h.mem_iff o
      simp only [map_append, map_cons, mem_append, mem_cons, mem_nil_iff] at hmem ⊢
      tauto
    · have hold := forall_mem_append.mp h.period
      refine forall_mem_append.mpr ⟨hold.1, forall_mem_cons.mpr ⟨?_, hold.2⟩⟩
      rcases low.eq_nil_or_concat' with rfl | ⟨low, e, rfl⟩
      · have hnone : lengths.filter (fun l => decide (l.1 ≤ order)) = [] := by
          refine filter_eq_nil_iff.mpr fun l hl => ?_
          obtain ⟨e, he, heq⟩ := mem_map.mp ((h.mem_iff l.1).mpr (Or.inl (mem_map_of_mem hl)))
          have := hhigh e he
          simp only [decide_eq_true_eq]
          omega
        simp [periodOf, hnone]
      · have hasc := (pairwise_append.mp (pairwise_append.mp h.ascending).1).2.2
        have hsame : periodOf lengths order = e.2 := by
          refine h.periodOf_eq (by simp) (hlow e (by simp)).le fun e' he' => ?_
          simp only [mem_append, mem_singleton] at he'
          rcases he' with (he' | rfl) | he'
          · exact Or.inl (hasc e' he' e mem_cons_self).le
          · exact Or.inl le_rfl
          · exact Or.inr (hhigh e' he')
        simp [hsame]

theorem foldl_add (more : List Int) : Exact lengths (orders ++ more) (more.foldl Periods.add periods) := by
  induction more generalizing orders periods with
  | nil => simpa using h
  | cons order more ih =>
    have hrest := ih (h.add order)
    rwa [append_assoc, singleton_append] at hrest

/-- Of some orders in the table, those that are through with their values after a number of items. -/
theorem completed_filter {ascending : List Int}
    (hascending : ascending.Pairwise (· < ·)) (hmem : ∀ o, o ∈ ascending ↔ o ∈ orders) (items : Nat) :
    (periods.completed items).filter orders.contains = ascending.filter fun o => items % periodOf lengths o == 0 := by
  refine Pairwise.eq_of_mem_iff (r := (· < ·)) ?_ (hascending.filter _) fun o => ?_
  · exact (pairwise_map.mpr (h.ascending.filter _)).filter _
  · simp only [Periods.completed, mem_filter, mem_map, contains_iff_mem, hmem]
    constructor
    · rintro ⟨⟨e, ⟨he, hitems⟩, rfl⟩, ho⟩
      exact ⟨ho, by rwa [h.period e he] at hitems⟩
    · rintro ⟨ho, hitems⟩
      obtain ⟨e, he, rfl⟩ := mem_map.mp ((h.mem_iff o).mpr (Or.inr ho))
      exact ⟨⟨e, ⟨he, by rwa [h.period e he]⟩, rfl⟩, ho⟩

end

end Exact

end Periods

end LabBench.Sweep
