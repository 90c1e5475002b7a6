import LabBench.Proofs.Sweep.Records
import LabBench.Sweep.Table
import Mathlib.Algebra.BigOperators.Ring.List
import Mathlib.Data.List.Forall2
/-!
# Tables and sweeps

The table of some axes can be made without a run, and its rows are nevertheless those that a run passes on: if
there is a variable along every axis, the items of the sweep are the rows of the table, in the same order, and so
are the values that are recorded by any run that is not held by guards.

## Main results

* `rows_recorded`
-/

namespace LabBench.Sweep

open Axis List

/-! ### Numbers as values -/

section Numbers

variable {α β : Type}

theorem choices_map (f : α → β) (xss : List (List α)) : choices (xss.map (·.map f)) = (choices xss).map (·.map f) := by
  induction xss with
  | nil => rfl
  | cons xs rest ih =>
    simp only [map_cons, choices, ih, flatMap_map, map_flatMap, map_map]
    rfl

theorem rowsOf_map (f : α → β) (columns : List (List α)) :
    rowsOf (columns.map (·.map f)) = (rowsOf columns).map (·.map f) := by
  induction columns with
  | nil => rfl
  | cons column columns ih =>
    cases columns with
    | nil => simp [rowsOf]
    | cons column' columns =>
      rw [map_cons, map_cons, rowsOf_cons_cons, rowsOf_cons_cons, ← map_cons, ih, zipWith_map, map_zipWith]
      rfl

theorem itemsOf_map (f : α → β) (groups : List (List (List α))) :
    itemsOf (groups.map (·.map (·.map f))) = (itemsOf groups).map (·.map (·.map f)) := by
  rw [itemsOf, itemsOf, ← choices_map, map_map, map_map]
  exact congrArg choices (map_congr_left fun columns _ => rowsOf_map f columns)

theorem forall₂_mem_of_mem_choices {xss : List (List α)} {c : List α} (h : c ∈ choices xss) :
    Forall₂ (fun xs x => x ∈ xs) xss c := by
  induction xss generalizing c with
  | nil =>
    rw [mem_singleton.mp h]
    exact .nil
  | cons xs rest ih =>
    obtain ⟨x, hx, hc⟩ := mem_flatMap.mp h
    obtain ⟨c', hc', rfl⟩ := mem_map.mp hc
    exact .cons hx (ih hc')

theorem forall₂_mem_of_mem_rowsOf {columns : List (List α)} {row : List α} (h : row ∈ rowsOf columns) :
    Forall₂ (fun column x => x ∈ column) columns row := by
  induction columns generalizing row with
  | nil => cases h
  | cons column columns ih =>
    cases columns with
    | nil =>
      obtain ⟨x, hx, rfl⟩ := mem_map.mp h
      exact .cons hx .nil
    | cons column' columns =>
      rw [rowsOf_cons_cons] at h
      obtain ⟨i, hi⟩ := mem_iff_getElem?.mp h
      obtain ⟨x, rest, hx, hrest, rfl⟩ := getElem?_zipWith_eq_some.mp hi
      exact .cons (mem_of_getElem? hx) (ih (mem_of_getElem? hrest))

theorem forall₂_mem_of_mem_itemsOf {groups : List (List (List α))} {item : List (List α)}
    (h : item ∈ itemsOf groups) : Forall₂ (fun column x => x ∈ column) groups.flatten item.flatten := by
  refine rel_flatten ?_
  have hrows := forall₂_mem_of_mem_choices h
  rw [forall₂_map_left_iff] at hrows
  exact hrows.imp fun columns row hrow => forall₂_mem_of_mem_rowsOf hrow

end Numbers

def valued (groups : List (List (List Float))) : List (List (List (Outcome Value))) :=
  groups.map (·.map (·.map fun x => .ok (.real x)))

theorem nil_notMem_valued {groups : List (List (List Float))} (h : [] ∉ groups) : [] ∉ valued groups := by
  intro hmem
  obtain ⟨g, hg, hnil⟩ := mem_map.mp hmem
  rw [map_eq_nil_iff.mp hnil] at hg
  exact h hg

theorem rowAt_valued {columns : List (List Float)} (hne : columns ≠ []) (p : Nat) :
    rowAt p (columns.map (·.map fun x => .ok (.real x))) = .ok ((rowsOf columns)[p]?.map (·.map .real)) := by
  induction columns with
  | nil => exact absurd rfl hne
  | cons column columns ih =>
    rw [map_cons, rowAt, getElem?_map]
    cases columns with
    | nil =>
      rw [rowsOf, getElem?_map]
      cases column[p]? <;> rfl
    | cons column' columns =>
      rw [rowsOf_cons_cons, getElem?_zipWith, ih (by simp)]
      cases column[p]? <;> cases (rowsOf (column' :: columns))[p]? <;> rfl

section Dials

variable {groups : List (List (List Float))} {dials : List Dial} {i n : Nat}

theorem exists_start_valued (hne : [] ∉ groups) (hrows : ∀ g ∈ groups, rowsOf g ≠ []) :
    ∃ dials, (valued groups).mapM Dial.start = .ok dials := by
  induction groups with
  | nil => exact ⟨[], rfl⟩
  | cons columns rest ih =>
    rw [mem_cons, not_or] at hne
    rw [forall_mem_cons] at hrows
    obtain ⟨ds, hds⟩ := ih hne.2 hrows.2
    obtain ⟨row, rows, hcons⟩ := exists_cons_of_ne_nil hrows.1
    have hrow := rowAt_valued (Ne.symm hne.1) 0
    rw [hcons] at hrow
    have hstart : Dial.start (columns.map (·.map fun x => .ok (.real x))) =
        .ok ⟨columns.map (·.map fun x => .ok (.real x)), 0, row.map .real⟩ :=
      Outcome.bind_eq_ok.mpr ⟨_, hrow, rfl⟩
    rw [valued, map_cons, mapM_cons]
    exact ⟨_, Outcome.bind_eq_ok.mpr ⟨_, hstart, Outcome.bind_eq_ok.mpr ⟨ds, hds, rfl⟩⟩⟩

theorem Stands.exists_turnAll (h : Stands (valued groups) dials i) (hne : [] ∉ groups) :
    ∃ next, Sweep.turnAll dials = .ok next := by
  generalize hgs : valued groups = gs at h
  induction h generalizing groups with
  | nil => exact ⟨_, rfl⟩
  | @cons d rest ds j hrow h ih =>
    obtain ⟨columns, groups, rfl, hd, rfl⟩ := map_eq_cons_iff.mp hgs
    rw [mem_cons, not_or] at hne
    obtain ⟨⟨ds', moved⟩, hds⟩ := ih hne.2 rfl
    have hat := rowAt_valued (Ne.symm hne.1)
    rw [hd] at hat
    -- the dial shows a row, so there is a first one to start again with
    obtain ⟨row, hfst⟩ : ∃ row, rowAt 0 d.columns = .ok (some row) := by
      rw [hat] at hrow
      obtain ⟨row, hrow, -⟩ := Option.map_eq_some_iff.mp (Except.ok.inj hrow)
      have hlt := (List.getElem?_eq_some_iff.mp hrow).1
      rw [hat, getElem?_eq_getElem (Nat.zero_lt_of_lt hlt)]
      exact ⟨_, rfl⟩
    have hstart : ∃ d', Dial.start d.columns = .ok d' := ⟨_, Outcome.bind_eq_ok.mpr ⟨_, hfst, rfl⟩⟩
    have hturn : ∃ next, d.turn = .ok next := by
      have hnext := hat (d.position + 1)
      cases hrow' : (rowsOf columns)[d.position + 1]? <;> rw [hrow'] at hnext <;>
        exact ⟨_, Outcome.bind_eq_ok.mpr ⟨_, hnext, rfl⟩⟩
    obtain ⟨d', hd'⟩ := hstart
    obtain ⟨next, hnext⟩ := hturn
    cases moved with
    | some k => exact ⟨_, Outcome.bind_eq_ok.mpr ⟨_, hds, rfl⟩⟩
    | none =>
      cases next with
      | some d'' => exact ⟨_, Outcome.bind_eq_ok.mpr ⟨_, hds, Outcome.bind_eq_ok.mpr ⟨_, hnext, rfl⟩⟩⟩
      | none =>
        exact ⟨_, Outcome.bind_eq_ok.mpr ⟨_, hds, Outcome.bind_eq_ok.mpr
          ⟨_, hnext, Outcome.bind_eq_ok.mpr ⟨_, hd', rfl⟩⟩⟩⟩

theorem Stands.getElem?_numbers (h : Stands (valued groups) dials i) (hne : [] ∉ groups) :
    ((itemsOf groups).map flatten)[i]? = some (Table.numbers dials) := by
  have hitem := h.getElem?_itemsOf (nil_notMem_valued hne)
  rw [valued, itemsOf_map, getElem?_map] at hitem
  obtain ⟨item, hitem, hrows⟩ := Option.map_eq_some_iff.mp hitem
  have hvals : item.flatten.map Value.real = (dials.map (·.row)).flatten := by
    refine map_injective_iff.mpr (fun _ _ h => Except.ok.inj h : Function.Injective
      (Except.ok : Value → Outcome Value)) ?_
    rw [map_map, map_flatten, map_flatten, map_map]
    exact congrArg flatten hrows
  rw [getElem?_map, hitem, Table.numbers, ← hvals, filterMap_map]
  exact congrArg some filterMap_some.symm

end Dials

namespace Table

variable {groups : List (List (List Float))} {dials : List Dial} {i n : Nat}

theorem rowsAfter_eq (h : Stands (valued groups) dials i) (hne : [] ∉ groups) (hn : i + n < (itemsOf groups).length) :
    rowsAfter n dials = .ok ((((itemsOf groups).map flatten).drop (i + 1)).take n) := by
  induction n generalizing dials i with
  | zero => rfl
  | succ n ih =>
    obtain ⟨⟨dials', moved⟩, hturn⟩ := h.exists_turnAll hne
    have hlen : (itemsOf (valued groups)).length = (itemsOf groups).length := by
      rw [valued, itemsOf_map, length_map]
    obtain ⟨-, hstands⟩ | ⟨-, hlast, -⟩ := h.turnAll (nil_notMem_valued hne) hturn
    · have hnums := hstands.getElem?_numbers hne
      obtain ⟨hlt, hget⟩ := List.getElem?_eq_some_iff.mp hnums
      rw [drop_eq_getElem_cons hlt, take_succ_cons, hget]
      exact Outcome.bind_eq_ok.mpr ⟨_, hturn, Outcome.bind_eq_ok.mpr ⟨_, ih hstands (by omega), rfl⟩⟩
    · omega

end Table

/-! ### Axes -/

namespace Axis

def columns (groups : List (List Axis)) : List (List (List Float)) :=
  groups.map (·.map fun a => Number.spaced a.first a.last a.count)

theorem valued_columns (groups : List (List Axis)) : valued (columns groups) = groups.map (·.map values) := by
  simp only [valued, columns, map_map]
  refine map_congr_left fun g _ => ?_
  rw [Function.comp_apply, map_map]
  rfl

theorem length_itemsOf_columns (groups : List (List Axis)) :
    (itemsOf (columns groups)).length = combinations Axis.count groups := by
  have hrows (g : List Axis) : (rowsOf (g.map fun a => Number.spaced a.first a.last a.count)).length =
      groupLength Axis.count g :=
    length_rowsOf_map Axis.count _ (fun a => Number.length_spaced a.first a.last a.count) g
  rw [itemsOf, length_choices, columns, map_map, map_map, combinations, ← prod_eq_foldl]
  exact congrArg prod (map_congr_left fun g _ => hrows g)

structure Along (a : Axis) (x : Variable) : Prop where
  order : x.order = a.order
  span : x.span = .even a.first a.last a.count
  form : x.form = .float
  enabled : x.enabled = true
  isConst : x.isConst = false

variable {axes : List Axis} {all : List Variable}

theorem Along.values_eq {a : Axis} {x : Variable} (h : a.Along x) : x.values = a.values := by
  have htyped (v : Value) : x.typed v = .ok v := by
    rw [Variable.typed, h.form]
  rw [Variable.values, Variable.rawValues, h.isConst, h.span, if_neg Bool.false_ne_true, Span.values, map_map, values]
  exact map_congr_left fun v _ => htyped _

section

variable (h : Forall₂ Along axes all)

include h

theorem exists_along {x : Variable} (hx : x ∈ all) : ∃ a, Along a x := by
  induction h with
  | nil => cases hx
  | cons ha _ ih =>
    rcases mem_cons.mp hx with rfl | hx
    · exact ⟨_, ha⟩
    · exact ih hx

theorem movingOf_of_along : movingOf all = all := by
  refine filter_eq_self.mpr fun x hx => ?_
  obtain ⟨a, ha⟩ := exists_along h hx
  rw [ha.enabled, ha.isConst]
  rfl

theorem constantsOf_of_along : constantsOf all = [] := by
  refine filter_eq_nil_iff.mpr fun x hx => ?_
  obtain ⟨a, ha⟩ := exists_along h hx
  rw [ha.isConst, Bool.and_false]
  exact Bool.false_ne_true

theorem forall₂_groupsOf : Forall₂ (Forall₂ Along) (byOrder Axis.order axes) (groupsOf all) := by
  have hords : all.map Variable.order = axes.map Axis.order := by
    induction h with
    | nil => rfl
    | cons ha _ ih => rw [map_cons, map_cons, ha.order, ih]
  have hsame : ordersOf Variable.order all = ordersOf Axis.order axes := by
    rw [ordersOf, ordersOf, hords]
  rw [groupsOf, constantsOf_of_along h, if_pos rfl, nil_append, movingOf_of_along h, hsame,
    byOrder_eq_map_ofOrder, forall₂_map_left_iff, forall₂_map_right_iff, forall₂_same]
  intro o _
  exact rel_filter (fun a x hax => by simp only [hax.order, beq_iff_eq]) h

end

theorem columnsOf_eq_valued {groups : List (List Axis)} {groups' : List (List Variable)}
    (h : Forall₂ (Forall₂ Along) groups groups') : columnsOf groups' = valued (columns groups) := by
  have hcols {g : List Axis} {g' : List Variable} (hg : Forall₂ Along g g') :
      g'.map Variable.values = g.map values := by
    induction hg with
    | nil => rfl
    | cons ha _ ih => rw [map_cons, map_cons, ha.values_eq, ih]
  rw [valued_columns, columnsOf]
  induction h with
  | nil => rfl
  | cons hg _ ih => rw [map_cons, map_cons, hcols hg, ih]

theorem nil_notMem_columns (axes : List Axis) : [] ∉ columns (byOrder Axis.order axes) := by
  intro hmem
  obtain ⟨g, hg, hnil⟩ := mem_map.mp hmem
  rw [map_eq_nil_iff.mp hnil, byOrder_eq_map_ofOrder] at hg
  obtain ⟨o, ho, hnil⟩ := mem_map.mp hg
  exact ofOrder_ne_nil ho hnil

end Axis

namespace Table

variable {axes : List Axis} {all : List Variable}

/-- The table of some axes has all choices of one row of each group, and the columns have the names of the axes
group by group. -/
theorem ofAxes_eq (hne : axes ≠ []) : ∃ table, ofAxes axes = .ok table ∧
    table.rows = (itemsOf (columns (byOrder Axis.order axes))).map flatten ∧
    table.names = (byOrder Axis.order axes).flatten.map (·.name) := by
  have hlen := length_itemsOf_columns (byOrder Axis.order axes)
  have hnil := nil_notMem_columns axes
  obtain ⟨a, rest, rfl⟩ := exists_cons_of_ne_nil hne
  simp only [ofAxes]
  cases hn : combinations Axis.count (byOrder Axis.order (a :: rest)) with
  | zero =>
    rw [hn] at hlen
    have hnone := eq_nil_of_length_eq_zero hlen
    refine ⟨_, rfl, ?_, ?_⟩
    · rw [hnone]
      rfl
    · rfl
  | succ n =>
    rw [hn] at hlen
    have hrows : ∀ g ∈ columns (byOrder Axis.order (a :: rest)), rowsOf g ≠ [] := by
      intro g hg hempty
      rw [itemsOf, length_choices, prod_eq_zero] at hlen
      · cases hlen
      · exact mem_map.mpr ⟨[], mem_map.mpr ⟨g, hg, hempty⟩, rfl⟩
    obtain ⟨dials, hdials⟩ := exists_start_valued hnil hrows
    have hstands := Stands.start hdials
    have hfst := hstands.getElem?_numbers hnil
    have hafter := rowsAfter_eq (n := n) hstands hnil (by omega)
    rw [valued_columns, mapM_map] at hdials
    obtain ⟨hlt, hget⟩ := List.getElem?_eq_some_iff.mp hfst
    have htake : (((itemsOf (columns (byOrder Axis.order (a :: rest)))).map flatten).drop 1).take n =
        ((itemsOf (columns (byOrder Axis.order (a :: rest)))).map flatten).drop 1 := by
      refine take_of_length_le ?_
      rw [length_drop, length_map, hlen]
      rfl
    refine ⟨_, Outcome.bind_eq_ok.mpr ⟨dials, hdials, Outcome.bind_eq_ok.mpr ⟨_, hafter, rfl⟩⟩, ?_, ?_⟩
    · change _ :: _ = _
      rw [Nat.zero_add, htake, ← hget, ← drop_eq_getElem_cons hlt, drop_zero]
    · rfl

end Table

/-! ### Runs that are not held -/

variable {counts : List Nat}

theorem held_of_forall_eq_one {α : Type} (h : ∀ m ∈ counts, m = 1) (items : List α) :
    held counts items = items.take counts.length := by
  induction counts generalizing items with
  | nil => rfl
  | cons m counts ih =>
    obtain ⟨rfl, hrest⟩ := forall_mem_cons.mp h
    cases items with
    | nil => rfl
    | cons x items => exact congrArg (x :: ·) (ih hrest items)

/-- Without guards, the records are those of full cycles and of the first items of one more. -/
theorem Recorded.entries_eq_of_free {items : List (List (Outcome Value))} {free : Prop}
    {cycles : List (List Nat)} {entries : List (List Value)}
    (h : Recorded items free cycles counts entries) (hfree : free) : entries.map (fun vs => vs.map .ok) =
      (replicate cycles.length items).flatten ++ items.take counts.length := by
  have hcycle : ∀ c ∈ cycles, held c items = items := fun c hc => by
    rw [held_of_forall_eq_one fun m hm => (h.often c hc m hm).2 hfree, h.full c hc, take_length]
  rw [h.entries_eq, held_of_forall_eq_one fun m hm => (h.often_part m hm).2 hfree, flatMap,
    map_congr_left hcycle, map_const']

namespace Plan

variable {σ : Type} [Clocked σ] {plan : Plan σ} {all : List Variable} {log : σ → List (List Value)}
  {following : Option Phase}

/-- The records of a run without guards over rows of numbers. -/
theorem log_of_after?_of_rows {rows : List (List Float)} (hplan : plan.Sweeps all) (hp : plan.Private)
    (hlog : plan.Records log) (hguards : plan.guards = [])
    (hrows : sweepItems all = rows.map (·.map fun v => .ok (.real v))) {n : Nat} {start r : Run σ}
    (h : plan.after? n (some .init, start) = some (following, r)) :
    ∃ (cycles k : Nat) (entries : List (List Float)), log r.world = log start.world ++ entries.map (·.map .real) ∧
      entries = (replicate cycles rows).flatten ++ rows.take k ∧ n ≤ 9 * entries.length + 6 ∧
      (start.status.continuous = false → cycles = if following.isNone then 1 else 0) ∧
      (following = none → 0 < cycles ∧ k = 0) := by
  obtain ⟨cycles, counts, entries, hbook⟩ := exists_book hplan hp hlog h
  have hrec := hbook.recorded.entries_eq_of_free hguards
  rw [hplan.map_flatten_items, hrows, ← map_replicate, ← map_take, ← map_flatten, ← map_append] at hrec
  set written := (replicate cycles.length rows).flatten ++ rows.take counts.length with hwrit
  have hents : entries = written.map (·.map .real) := by
    refine map_injective_iff.mpr (map_injective_iff.mpr fun _ _ h => Except.ok.inj h :
      Function.Injective (map (Except.ok : Value → Outcome Value))) (hrec.trans ?_)
    rw [map_map]
    exact map_congr_left fun row _ => (map_map ..).symm
  refine ⟨cycles.length, counts.length, written, ?_, hwrit, ?_, hbook.single, ?_⟩
  · rw [hbook.log_eq, hents]
  · have hpace := hbook.pace
    have hpaces : paces following ≤ 8 := by
      unfold paces
      split <;> decide
    rw [hents, length_map] at hpace
    omega
  · rintro rfl
    exact ⟨length_pos_iff.mpr (hbook.ended rfl), hbook.stage⟩

end Plan

namespace Table

variable {axes : List Axis} {all : List Variable}

/-- The table of some axes and a sweep of variables along them. Both make the same groups, and the items of the sweep
are the rows of the table. Without guards the records of a run are the rows from the first one on, all of them once
the run has come to its end, and again in every further cycle. -/
theorem rows_recorded (hne : axes ≠ []) (hall : Forall₂ Along axes all) : ∃ table, ofAxes axes = .ok table ∧
      Forall₂ (Forall₂ Along) (byOrder Axis.order axes) (arrange all).1 ∧
      table.rows.length = combinations Axis.count (byOrder Axis.order axes) ∧
      table.rows.length = (arrange all).2 ∧
      table.names = (byOrder Axis.order axes).flatten.map (·.name) ∧
      (∀ row ∈ table.rows, Forall₂ (fun a v => v ∈ Number.spaced a.first a.last a.count)
        (byOrder Axis.order axes).flatten row) ∧
      sweepItems all = table.rows.map (·.map fun v => .ok (.real v)) ∧
      ∀ (σ : Type) [Clocked σ] (plan : Plan σ) (log : σ → List (List Value)), plan.Sweeps all →
        plan.Private → plan.Records log → plan.guards = [] → ∀ n start following r,
        plan.after? n (some .init, start) = some (following, r) →
        ∃ (cycles k : Nat) (entries : List (List Float)), log r.world = log start.world ++ entries.map (·.map .real) ∧
          entries = (replicate cycles table.rows).flatten ++ table.rows.take k ∧
          n ≤ 9 * entries.length + 6 ∧
          (start.status.continuous = false → cycles = if following.isNone then 1 else 0) ∧
          (following = none → 0 < cycles ∧ k = 0) := by
  obtain ⟨table, htable, hrows, hnames⟩ := ofAxes_eq hne
  have hgroups := forall₂_groupsOf hall
  have hitems : sweepItems all = table.rows.map (·.map fun v => .ok (.real v)) := by
    rw [sweepItems, columnsOf_eq_valued hgroups, valued, itemsOf_map, hrows, map_map, map_map]
    exact map_congr_left fun item _ => map_flatten.symm
  have hlength : table.rows.length = combinations Axis.count (byOrder Axis.order axes) := by
    rw [hrows, length_map, length_itemsOf_columns]
  refine ⟨table, htable, (arrange_fst all).symm ▸ hgroups, hlength, ?_, hnames, ?_, hitems, ?_⟩
  · obtain ⟨a, rest, rfl⟩ := exists_cons_of_ne_nil hne
    obtain ⟨x, xs, ha, -, rfl⟩ := forall₂_cons_left_iff.mp hall
    rw [arrange_snd ⟨x, mem_cons_self, ha.enabled⟩, ← length_itemsOf_columnsOf]
    have := congrArg length hitems
    rwa [sweepItems, length_map, length_map, eq_comm] at this
  · intro row hrow
    rw [hrows] at hrow
    obtain ⟨item, hitem, rfl⟩ := mem_map.mp hrow
    have hmem := forall₂_mem_of_mem_itemsOf hitem
    rwa [columns, ← map_flatten, forall₂_map_left_iff] at hmem
  · intro σ _ plan log hplan hp hlog hguards n start following r h
    exact Plan.log_of_after?_of_rows hplan hp hlog hguards hitems h

end Table

namespace Notebook

/-- Two axes of one order and of different lengths, and a slower one. -/
def sampleAxes : List Axis :=
  [⟨"x", 2, 0.0, 1.0, 2⟩, ⟨"y", 1, 5.0, 7.0, 3⟩, ⟨"z", 1, 8.0, 9.0, 2⟩]

/-- A variable along an axis, with half a second after each of its values. -/
def alongAxis (a : Axis) : Variable where
  name := a.name
  order := a.order
  span := .even a.first a.last a.count
  wait := seconds 0.5
  enabled := true

/-- The plan of the variables along the axes of the sample. -/
def axesPlan : Plan Notebook :=
  plan [[alongAxis ⟨"x", 2, 0.0, 1.0, 2⟩], [alongAxis ⟨"y", 1, 5.0, 7.0, 3⟩, alongAxis ⟨"z", 1, 8.0, 9.0, 2⟩]] 4 []

theorem axesPlan_sweeps : axesPlan.Sweeps (sampleAxes.map alongAxis) := by
  have harr : arrange (sampleAxes.map alongAxis) = (axesPlan.groups, 4) := by
    simp [arrange, sampleAxes, alongAxis, axesPlan, plan, byOrder, mergeSort]
    exact ⟨rfl, rfl⟩
  exact ⟨congrArg Prod.fst harr.symm, congrArg (fun a => (a.2 : Int)) harr.symm⟩

theorem axesPlan_ends : ((axesPlan.after? 26 (some .init, sampleStart)).map fun s => s.1) = some none := by
  decide +kernel

/-- The records of the sample are the four rows of its table. -/
theorem sampleAxes_recorded : ∃ table, Table.ofAxes sampleAxes = .ok table ∧ table.rows.length = 4 ∧
    ∃ r, axesPlan.after? 26 (some .init, sampleStart) = some (none, r) ∧
      r.world.entries.map (·.1) = table.rows.map (·.map .real) := by
  have hall : Forall₂ Along sampleAxes (sampleAxes.map alongAxis) :=
    forall₂_map_right_iff.mpr (forall₂_same.mpr fun _ _ => ⟨rfl, rfl, rfl, rfl, rfl⟩)
  obtain ⟨table, htable, -, -, hlength, -, -, -, hrun⟩ := Table.rows_recorded (cons_ne_nil _ _) hall
  obtain ⟨⟨following, r⟩, hafter, hnone⟩ := Option.map_eq_some_iff.mp axesPlan_ends
  obtain rfl : following = none := hnone
  obtain ⟨cycles, k, entries, hlog, hentries, -, hsingle, hended⟩ :=
    hrun Notebook axesPlan _ axesPlan_sweeps plan_private plan_records rfl _ _ _ _ hafter
  obtain rfl : cycles = 1 := hsingle rfl
  obtain ⟨-, rfl⟩ := hended rfl
  have hcount : (4 : Int) = (arrange (sampleAxes.map alongAxis)).2 := axesPlan_sweeps.itemCount
  refine ⟨table, htable, by omega, r, hafter, hlog.trans ?_⟩
  rw [hentries, replicate_one, flatten_singleton, take_zero, append_nil]
  rfl

end Notebook

end LabBench.Sweep
