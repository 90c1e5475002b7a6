import LabBench.Proofs.Frame
import LabBench.Sweep.Dial
import Mathlib.Algebra.BigOperators.Group.List.Basic
import Mathlib.Data.List.Basic
import Mathlib.Tactic.Ring
/-!
# Dials as an odometer

The rows of a group are its columns side by side, as many as the shortest column has. The items of a
sweep are all choices of one row of each group, in lexicographic order. Dials that stand at the item
with number `i` stand at the item with number `i + 1` after a turn, or at the first one again if `i`
was the last.
-/

namespace LabBench.Sweep

open List

variable {α : Type} {p : Nat} {column : List (Outcome Value)} {row : List Value} {columns : List (List (Outcome Value))}

/-! ### Choices -/

/-- All choices of one element of each list, in lexicographic order: the choice from the last list
changes fastest. -/
def choices : List (List α) → List (List α)
  | [] => [[]]
  | xs :: rest => xs.flatMap fun x => (choices rest).map (x :: ·)

theorem length_choices (xss : List (List α)) : (choices xss).length = (xss.map length).prod := by
  induction xss with
  | nil => rfl
  | cons xs rest ih => simp [choices, length_flatMap, ih]

private theorem getElem?_flatMap_of_length {β : Type} {f : α → List β} {m : Nat} {xs : List α}
    (hf : ∀ x ∈ xs, (f x).length = m) {j : Nat} (hj : j < m) :
    (xs.flatMap f)[p * m + j]? = xs[p]?.bind fun x => (f x)[j]? := by
  induction xs generalizing p with
  | nil => simp
  | cons x xs ih =>
    have hx := hf x mem_cons_self
    rw [flatMap_cons]
    cases p with
    | zero =>
      rw [getElem?_append_left (by omega)]
      simp
    | succ p =>
      rw [getElem?_append_right (by rw [hx, Nat.succ_mul]; omega)]
      have hsub : (p + 1) * m + j - (f x).length = p * m + j := by
        rw [hx, Nat.succ_mul]
        omega
      rw [hsub, ih fun y hy => hf y (mem_cons_of_mem x hy)]
      simp

/-- The number of a choice, by the position of its first element and the number of the others. -/
theorem getElem?_choices_cons {xs : List α} {rest : List (List α)} {j : Nat} {x : α} {c : List α}
    (hx : xs[p]? = some x) (hc : (choices rest)[j]? = some c) :
    (choices (xs :: rest))[p * (choices rest).length + j]? = some (x :: c) := by
  obtain ⟨hj, -⟩ := List.getElem?_eq_some_iff.mp hc
  rw [choices, getElem?_flatMap_of_length (fun y _ => length_map _) hj, hx]
  simp [hc]

/-! ### Rows -/

/-- The rows of a group: the columns side by side, as many as the shortest column has. -/
def rowsOf : List (List α) → List (List α)
  | [] => []
  | [column] => column.map fun v => [v]
  | column :: columns => zipWith (· :: ·) column (rowsOf columns)

theorem rowsOf_cons_cons (column column' : List α) (columns : List (List α)) : rowsOf (column :: column' :: columns) =
      zipWith (· :: ·) column (rowsOf (column' :: columns)) :=
  rfl

theorem length_rowsOf_map {β : Type} (length : β → Nat) (column : β → List α)
    (hlen : ∀ x, (column x).length = length x) (xs : List β) :
    (rowsOf (xs.map column)).length = groupLength length xs := by
  induction xs with
  | nil => rfl
  | cons x xs ih =>
    cases xs with
    | nil => simp [rowsOf, groupLength, hlen]
    | cons y xs =>
      rw [map_cons, map_cons, rowsOf_cons_cons, length_zipWith, ← map_cons, ih, hlen]
      rfl

namespace Dial

theorem start_eq_ok {d : Dial}
    (h : start columns = .ok d) : ∃ row, rowAt 0 columns = .ok (some row) ∧ d = ⟨columns, 0, row⟩ := by
  obtain ⟨found, hfound, h⟩ := Outcome.bind_eq_ok.mp h
  cases found with
  | none => cases h
  | some row =>
    cases h
    exact ⟨row, hfound, rfl⟩

theorem turn_eq_some {d d' : Dial} (h : d.turn = .ok (some d')) :
    ∃ row, rowAt (d.position + 1) d.columns = .ok (some row) ∧ d' = ⟨d.columns, d.position + 1, row⟩ := by
  obtain ⟨found, hfound, h⟩ := Outcome.bind_eq_ok.mp h
  cases found with
  | none => cases h
  | some row =>
    cases h
    exact ⟨row, hfound, rfl⟩

theorem turn_eq_none {d : Dial} (h : d.turn = .ok none) : rowAt (d.position + 1) d.columns = .ok none := by
  obtain ⟨found, hfound, h⟩ := Outcome.bind_eq_ok.mp h
  cases found with
  | none => exact hfound
  | some row => cases h

end Dial

theorem rowAt_cons_eq_some {position : Nat} (h : rowAt position (column :: columns) = .ok (some row)) :
    ∃ v rest, column[position]? = some (.ok v) ∧ rowAt position columns = .ok (some rest) ∧ row = v :: rest := by
  rw [rowAt] at h
  split at h
  · simp at h
  · simp at h
  · rename_i v hv
    obtain ⟨found, hfound, h⟩ := Outcome.bind_eq_ok.mp h
    cases found with
    | none => cases h
    | some rest =>
      cases h
      exact ⟨v, rest, hv, hfound, rfl⟩

theorem rowAt_cons_eq_none {position : Nat} (h : rowAt position (column :: columns) = .ok none) :
    column[position]? = none ∨ rowAt position columns = .ok none := by
  rw [rowAt] at h
  split at h
  · rename_i hnone
    exact Or.inl hnone
  · simp at h
  · obtain ⟨found, hfound, h⟩ := Outcome.bind_eq_ok.mp h
    cases found with
    | none => exact Or.inr hfound
    | some rest => cases h

theorem getElem?_rowsOf (hne : columns ≠ []) (h : rowAt p columns = .ok (some row)) :
    (rowsOf columns)[p]? = some (row.map .ok) := by
  induction columns generalizing row with
  | nil => exact absurd rfl hne
  | cons column columns ih =>
    obtain ⟨v, rest, hv, hrest, rfl⟩ := rowAt_cons_eq_some h
    cases columns with
    | nil =>
      cases hrest
      simp [rowsOf, hv]
    | cons column' columns =>
      have htail := ih (by simp) hrest
      simp [rowsOf_cons_cons, getElem?_zipWith, hv, htail]

theorem length_of_rowAt (h : rowAt p columns = .ok (some row)) : row.length = columns.length := by
  induction columns generalizing row with
  | nil =>
    cases h
    rfl
  | cons column columns ih =>
    obtain ⟨v, rest, -, hrest, rfl⟩ := rowAt_cons_eq_some h
    rw [length_cons, length_cons, ih hrest]

theorem length_rowsOf_le (hne : columns ≠ []) (h : rowAt p columns = .ok none) : (rowsOf columns).length ≤ p := by
  induction columns with
  | nil => exact absurd rfl hne
  | cons column columns ih =>
    rcases rowAt_cons_eq_none h with hnone | hnone
    · have hlen := getElem?_eq_none_iff.mp hnone
      cases columns with
      | nil => simpa [rowsOf] using hlen
      | cons column' columns =>
        rw [rowsOf_cons_cons, length_zipWith]
        exact (min_le_left _ _).trans hlen
    · cases columns with
      | nil => cases hnone
      | cons column' columns =>
        rw [rowsOf_cons_cons, length_zipWith]
        exact (min_le_right _ _).trans (ih (by simp) hnone)

/-! ### Dials -/

/-- The items of groups: all choices of one row of each group. -/
def itemsOf (groups : List (List (List α))) : List (List (List α)) :=
  choices (groups.map rowsOf)

theorem length_itemsOf_cons (columns : List (List α)) (rest : List (List (List α))) :
    (itemsOf (columns :: rest)).length = (rowsOf columns).length * (itemsOf rest).length := by
  simp [itemsOf, length_choices]

/-- Dials that stand at the item with a number: each of them shows the row at its position, and the
number is put together from the positions. -/
inductive Stands : List (List (List (Outcome Value))) → List Dial → Nat → Prop
  | nil : Stands [] [] 0
  | cons {d : Dial} {rest ds j} (hrow : rowAt d.position d.columns = .ok (some d.row)) (h : Stands rest ds j) :
      Stands (d.columns :: rest) (d :: ds) (d.position * (itemsOf rest).length + j)

namespace Stands

variable {groups : List (List (List (Outcome Value)))} {dials dials' : List Dial} {i : Nat}

section

variable (h : Stands groups dials i)

include h

theorem length_eq : dials.length = groups.length := by
  induction h with
  | nil => rfl
  | cons hrow h ih => simp [ih]

theorem map_length_row : (dials.map (·.row)).map length = groups.map length := by
  induction h with
  | nil => rfl
  | cons hrow h ih => simp only [map_cons, length_of_rowAt hrow, ih]

theorem getElem?_itemsOf (hne : [] ∉ groups) : (itemsOf groups)[i]? = some (dials.map fun d => d.row.map .ok) := by
  induction h with
  | nil => rfl
  | cons hrow h ih =>
    rw [mem_cons, not_or] at hne
    exact getElem?_choices_cons (getElem?_rowsOf (Ne.symm hne.1) hrow) (ih hne.2)

theorem lt_length (hne : [] ∉ groups) : i < (itemsOf groups).length :=
  (List.getElem?_eq_some_iff.mp (h.getElem?_itemsOf hne)).1

end

theorem start (h : groups.mapM Dial.start = .ok dials) : Stands groups dials 0 := by
  induction groups generalizing dials with
  | nil =>
    cases h
    exact .nil
  | cons columns rest ih =>
    rw [mapM_cons] at h
    obtain ⟨d, hd, h⟩ := Outcome.bind_eq_ok.mp h
    obtain ⟨ds, hds, h⟩ := Outcome.bind_eq_ok.mp h
    cases h
    obtain ⟨row, hrow, rfl⟩ := Dial.start_eq_ok hd
    simpa using Stands.cons (d := ⟨columns, 0, row⟩) hrow (ih hds)

end Stands

/-- The ways in which a dial takes part in a turn: it waits for those after it, it moves on because
they have started again, or it starts again with them. -/
theorem turnAll_cons_eq_ok {d : Dial} {ds dials' : List Dial} {moved : Option Nat}
    (h : turnAll (d :: ds) = .ok (dials', moved)) : ∃ ds' m, turnAll ds = .ok (ds', m) ∧
      ((∃ k, m = some k ∧ dials' = d :: ds' ∧ moved = some (k + 1)) ∨
        (m = none ∧ ∃ d', d.turn = .ok (some d') ∧ dials' = d' :: ds' ∧ moved = some 0) ∨
        (m = none ∧ d.turn = .ok none ∧ ∃ d', Dial.start d.columns = .ok d' ∧ dials' = d' :: ds' ∧ moved = none)) := by
  obtain ⟨⟨ds', m⟩, hds, h⟩ := Outcome.bind_eq_ok.mp h
  refine ⟨ds', m, hds, ?_⟩
  cases m with
  | some k =>
    cases h
    exact Or.inl ⟨k, rfl, rfl, rfl⟩
  | none =>
    obtain ⟨next, hnext, h⟩ := Outcome.bind_eq_ok.mp h
    cases next with
    | some d' =>
      cases h
      exact Or.inr (Or.inl ⟨rfl, d', hnext, rfl, rfl⟩)
    | none =>
      obtain ⟨d', hd', h⟩ := Outcome.bind_eq_ok.mp h
      cases h
      exact Or.inr (Or.inr ⟨rfl, hnext, d', hd', rfl, rfl⟩)

namespace Stands

variable {groups : List (List (List (Outcome Value)))} {dials dials' : List Dial} {i : Nat}

/-- A turn leads to the next item if one of the dials moves on, and otherwise from the last item
to the first one. -/
theorem turnAll {moved : Option Nat} (h : Stands groups dials i) (hne : [] ∉ groups)
    (hturn : turnAll dials = .ok (dials', moved)) : (moved.isSome ∧ Stands groups dials' (i + 1)) ∨
      (moved = none ∧ i + 1 = (itemsOf groups).length ∧ Stands groups dials' 0) := by
  induction h generalizing dials' moved with
  | nil =>
    cases hturn
    exact Or.inr ⟨rfl, rfl, .nil⟩
  | @cons d rest ds j hrow h ih =>
    rw [mem_cons, not_or] at hne
    obtain ⟨ds', m, hds, hcases⟩ := turnAll_cons_eq_ok hturn
    rcases hcases with ⟨k, rfl, rfl, rfl⟩ | ⟨rfl, d', hd', rfl, rfl⟩ | ⟨rfl, hlast, d', hd', rfl, rfl⟩
    · obtain ⟨-, hnext⟩ | ⟨hm, -⟩ := ih hne.2 hds
      · exact Or.inl ⟨rfl, .cons hrow hnext⟩
      · cases hm
    · obtain ⟨hm, -⟩ | ⟨-, hj, hfst⟩ := ih hne.2 hds
      · cases hm
      · obtain ⟨row, hrow', rfl⟩ := Dial.turn_eq_some hd'
        have hstands := Stands.cons (d := ⟨d.columns, d.position + 1, row⟩) hrow' hfst
        rw [← hj] at hstands ⊢
        refine Or.inl ⟨rfl, ?_⟩
        convert hstands using 1
        simp only
        ring
    · obtain ⟨hm, -⟩ | ⟨-, hj, hfst⟩ := ih hne.2 hds
      · cases hm
      · obtain ⟨row, hrow', rfl⟩ := Dial.start_eq_ok hd'
        have hle := length_rowsOf_le (Ne.symm hne.1) (Dial.turn_eq_none hlast)
        have hlt := (List.getElem?_eq_some_iff.mp (getElem?_rowsOf (Ne.symm hne.1) hrow)).1
        have hpos : (rowsOf d.columns).length = d.position + 1 := by omega
        refine Or.inr ⟨rfl, ?_, ?_⟩
        · rw [length_itemsOf_cons, hpos, ← hj]
          ring
        · simpa using Stands.cons (d := ⟨d.columns, 0, row⟩) hrow' hfst

end Stands

theorem turnAll_take {dials dials' : List Dial} {k : Nat} (h : turnAll dials = .ok (dials', some k)) :
    k < dials.length ∧ dials'.take k = dials.take k := by
  induction dials generalizing dials' k with
  | nil => cases h
  | cons d ds ih =>
    obtain ⟨ds', m, hds, hcases⟩ := turnAll_cons_eq_ok h
    rcases hcases with ⟨k', rfl, rfl, hk⟩ | ⟨rfl, d', -, rfl, hk⟩ | ⟨-, -, -, -, -, hk⟩
    · obtain ⟨hlt, htake⟩ := ih hds
      cases hk
      exact ⟨by simpa using hlt, by simpa using htake⟩
    · cases hk
      exact ⟨by simp, rfl⟩
    · cases hk

/-! ### Last rows -/

namespace Stands

variable {groups front back : List (List (List (Outcome Value)))} {dials : List Dial} {i : Nat}

theorem columns_eq (h : Stands groups dials i) : dials.map (·.columns) = groups := by
  induction h with
  | nil => rfl
  | cons hrow h ih => rw [map_cons, ih]

theorem of_append (h : Stands (front ++ back) dials i) :
    ∃ ds ds' m j, dials = ds ++ ds' ∧ ds.length = front.length ∧ Stands back ds' j ∧
      i = m * (itemsOf back).length + j := by
  induction front generalizing dials i with
  | nil => exact ⟨[], dials, 0, i, rfl, rfl, h, by rw [Nat.zero_mul, Nat.zero_add]⟩
  | cons columns front ih =>
    rw [cons_append] at h
    cases h with
    | @cons d _ ds j hrow h =>
      obtain ⟨ds₁, ds₂, m, k, rfl, hlen, hback, rfl⟩ := ih h
      refine ⟨d :: ds₁, ds₂, d.position * (itemsOf front).length + m, k, rfl, by simp [hlen], hback, ?_⟩
      simp only [itemsOf, length_choices, map_append, prod_append]
      ring

theorem succ_eq_length_iff (h : Stands groups dials i) (hne : [] ∉ groups) : i + 1 = (itemsOf groups).length ↔
      ∀ d ∈ dials, d.position + 1 = (rowsOf d.columns).length := by
  induction h with
  | nil => simp [itemsOf, choices]
  | @cons d rest ds j hrow h ih =>
    rw [mem_cons, not_or] at hne
    have hpos := (List.getElem?_eq_some_iff.mp (getElem?_rowsOf (Ne.symm hne.1) hrow)).1
    have hj := h.lt_length hne.2
    rw [forall_mem_cons, ← ih hne.2, length_itemsOf_cons]
    constructor
    · intro hlast
      have hd : d.position + 1 = (rowsOf d.columns).length := by
        by_contra hd
        have hmore : (d.position + 2) * (itemsOf rest).length ≤ (rowsOf d.columns).length * (itemsOf rest).length :=
          Nat.mul_le_mul_right _ (by omega)
        rw [Nat.add_mul] at hmore
        omega
      refine ⟨hd, ?_⟩
      rw [← hd, Nat.succ_mul] at hlast
      omega
    · rintro ⟨hd, hlast⟩
      rw [← hd, Nat.succ_mul]
      omega

/-- The last dials are at their last rows whenever the number of items so far is a multiple of the
number of their own items. -/
theorem succ_mod_eq_zero_iff (h : Stands (front ++ back) dials i) (hne : [] ∉ back) :
    ∃ ds ds', dials = ds ++ ds' ∧ ds.length = front.length ∧ ds'.map (·.columns) = back ∧
      ((i + 1) % (itemsOf back).length = 0 ↔ ∀ d ∈ ds', d.position + 1 = (rowsOf d.columns).length) := by
  obtain ⟨ds, ds', m, j, rfl, hlen, hback, rfl⟩ := h.of_append
  refine ⟨ds, ds', rfl, hlen, hback.columns_eq, ?_⟩
  have hj := hback.lt_length hne
  rw [← hback.succ_eq_length_iff hne, Nat.add_assoc, Nat.mul_add_mod_self_right]
  constructor
  · intro hmod
    by_contra hlast
    rw [Nat.mod_eq_of_lt (by omega)] at hmod
    omega
  · intro hlast
    rw [hlast, Nat.mod_self]

end Stands

end LabBench.Sweep
