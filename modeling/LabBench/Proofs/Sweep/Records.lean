import LabBench.Proofs.Sweep.Standing
/-!
# The records of a sweep

Whenever a run takes measurements, it passes on the values of its variables. What it passes on
altogether are the items of the sweep: every choice of one row of each group, in lexicographic order,
so that the lowest order changes fastest. A run that is held by guards passes on an item more than
once before it goes on to the next one, and a continuous run passes on all items again and again.

## Main results

* `records_after?`
-/

namespace LabBench.Sweep

open Act List

variable {α : Type}

/-! ### Items that are held -/

/-- Items in a row, each of them for a number of times. -/
def held (counts : List Nat) (items : List α) : List α :=
  (zipWith replicate counts items).flatten

theorem held_append {counts : List Nat} {items : List α} {x : α} (hx : items[counts.length]? = some x) (c : Nat) :
    held (counts ++ [c]) items = held counts items ++ replicate c x := by
  induction counts generalizing items with
  | nil =>
    obtain _ | ⟨y, items⟩ := items
    · cases hx
    · cases hx
      simp [held]
  | cons b counts ih =>
    obtain _ | ⟨y, items⟩ := items
    · cases hx
    · have hrest := ih (getElem?_cons_succ ▸ hx)
      simp only [held, cons_append, zipWith_cons_cons, flatten_cons] at hrest ⊢
      rw [hrest, append_assoc]

/-- The items of a sweep: the values of all its variables, group by group. -/
def sweepItems (all : List Variable) : List (List (Outcome Value)) :=
  (itemsOf (columnsOf (groupsOf all))).map flatten

/-- The records of full cycles, in which every item is held for a number of readings, and of the
first items of one more cycle. If there is nothing that holds an item, it is read once. -/
structure Recorded (items : List (List (Outcome Value))) (free : Prop) (cycles : List (List Nat))
    (counts : List Nat) (entries : List (List Value)) : Prop where
  full : ∀ c ∈ cycles, c.length = items.length
  part : counts.length ≤ items.length
  often : ∀ c ∈ cycles, ∀ m ∈ c, 1 ≤ m ∧ (free → m = 1)
  often_part : ∀ m ∈ counts, 1 ≤ m ∧ (free → m = 1)
  entries_eq : entries.map (fun vs => vs.map .ok) = (cycles.flatMap fun c => held c items) ++ held counts items

namespace Recorded

variable {items : List (List (Outcome Value))} {free : Prop} {cycles : List (List Nat)}
  {counts : List Nat} {entries : List (List Value)} {vs : List Value}

theorem nil : Recorded items free [] [] [] :=
  ⟨by simp, Nat.zero_le _, by simp, by simp, rfl⟩

theorem first (h : Recorded items free cycles counts entries) (hvs : items[counts.length]? = some (vs.map .ok)) :
    Recorded items free cycles (counts ++ [1]) (entries ++ [vs]) where
  full := h.full
  part := by
    obtain ⟨hlt, -⟩ := List.getElem?_eq_some_iff.mp hvs
    rw [length_append]
    exact hlt
  often := h.often
  often_part := forall_mem_append.mpr ⟨h.often_part, by simp⟩
  entries_eq := by simp [h.entries_eq, held_append hvs]

theorem again {c : Nat} (h : Recorded items free cycles (counts ++ [c]) entries) (hfree : ¬free)
    (hvs : items[counts.length]? = some (vs.map .ok)) :
    Recorded items free cycles (counts ++ [c + 1]) (entries ++ [vs]) where
  full := h.full
  part := by simpa using h.part
  often := h.often
  often_part :=
    forall_mem_append.mpr ⟨(forall_mem_append.mp h.often_part).1, by simp [hfree]⟩
  entries_eq := by simp [h.entries_eq, held_append hvs, replicate_succ']

theorem close (h : Recorded items free cycles counts entries) (hlen : counts.length = items.length) :
    Recorded items free (cycles ++ [counts]) [] entries where
  full := forall_mem_append.mpr ⟨h.full, by simpa using hlen⟩
  part := Nat.zero_le _
  often := forall_mem_append.mpr ⟨h.often, by simpa using h.often_part⟩
  often_part := by simp
  entries_eq := by simp [h.entries_eq, held]

end Recorded

namespace Plan

variable {σ : Type} [Clocked σ] {plan : Plan σ} {all : List Variable} {log : σ → List (List Value)}

/-! ### The book -/

/-- What a run passes on, and nothing else, is written into a book within the world. -/
structure Records (plan : Plan σ) (log : σ → List (List Value)) : Prop where
  surroundings : ∀ {α : Type} {act : Act (Run σ) α}, plan.Surrounds α act → Keeps (fun r => log r.world) act
  resources : ∀ {x : Resource (Run σ)}, plan.Sets x → ∀ v, Keeps (fun r => log r.world) (x.write v)
  data : ∃ hook, plan.hooks.onData = some hook ∧ ∀ t vs ms r, log (hook t vs ms r).2.world = log r.world ++ [vs]

namespace Records

theorem undisturbed (h : plan.Records log) (c : List (List Value)) : plan.Undisturbed fun r => log r.world = c where
  status _ _ _ hr := hr
  surroundings hact := (h.surroundings hact.of_endless).preserves c

variable {following : Option Phase}

theorem log_of_turn? (h : plan.Records log) {phase : Phase} (hphase : phase ≠ .read) {r r' : Run σ}
    (hturn : plan.turn? phase r = some (following, r')) : log r'.world = log r.world := by
  have hP := h.undisturbed (log r.world)
  obtain ⟨s, hs, hstep⟩ := hP.exists_stepOf hturn rfl
  have hnext : Preserves (fun s => log s.world = log r.world) plan.next := preserves_next fun _ _ hs => hs
  exact (stepOf_preserves hP (fun _ hs => hs) (fun _ hs => hs)
    (fun hx v => (h.resources hx v).preserves _) (fun _ _ _ hs => hs) (fun _ => hnext)
    fun hread => absurd hread hphase).apply hstep hs

theorem log_of_turn?_read (h : plan.Records log) (hp : plan.Private) {r r' : Run σ}
    (hturn : plan.turn? .read r = some (following, r')) :
    log r'.world = log r.world ++ [(rows r.status).flatten] := by
  obtain ⟨hook, hhook, hdata⟩ := h.data
  have hP := (hp.undisturbed r.status.progress).and (h.undisturbed (log r.world))
  obtain ⟨s, hs, hperf⟩ := hP.exists_stepOf hturn ⟨rfl, rfl⟩
  rcases read_calls hP hhook hs with ⟨f, r'', hread, -⟩ | ⟨s', time, ms, ⟨hprog, hlog⟩, hread⟩
  · cases hread.symm.trans hperf
  · have hrows : rows s'.status = rows r.status := congrArg Progress.rows hprog
    obtain ⟨_, t, hcall, hpure⟩ := bind_eq_ok.mp (hread.symm.trans hperf)
    obtain ⟨-, rfl⟩ := pure_eq_ok.mp hpure
    have hentry := hdata time (rows s'.status).flatten ms s'
    rwa [hcall, hlog, hrows] at hentry

end Records

/-! ### Runs -/

/-- The book of a run after a number of turns, with the full cycles and the readings of the items of
the present cycle. -/
structure Book (plan : Plan σ) (log : σ → List (List Value)) (start : Run σ) (n : Nat)
    (following : Option Phase) (r : Run σ) (cycles : List (List Nat)) (counts : List Nat)
    (entries : List (List Value)) : Prop where
  log_eq : log r.world = log start.world ++ entries
  recorded : Recorded (plan.items.map flatten) (plan.guards = []) cycles counts entries
  stage : plan.Stage following r.status.progress counts.length
  continuous : r.status.continuous = start.status.continuous
  single : start.status.continuous = false → cycles.length = if following.isNone then 1 else 0
  ended : following = none → cycles ≠ []
  pace : n + 2 ≤ 9 * entries.length + paces following

namespace Book

variable {r₀ r r' : Run σ} {n : Nat} {phase : Phase} {following : Option Phase}
  {cycles : List (List Nat)} {counts : List Nat} {entries : List (List Value)}

omit [Clocked σ] in
theorem start : plan.Book log r₀ 0 (some .init) r₀ [] [] [] :=
  ⟨by simp, .nil, rfl, rfl, fun _ => rfl, fun h => (by cases h), by decide⟩

theorem quiet (h : plan.Book log r₀ n (some phase) r cycles counts entries)
    (hplan : plan.Sweeps all) (hp : plan.Private) (hlog : plan.Records log)
    (hturn : plan.turn? phase r = some (following, r')) (hread : phase ≠ .read) (hramp : phase ≠ .rampDown) :
    plan.Book log r₀ (n + 1) following r' cycles counts entries := by
  have hmoves := hp.moves h.stage.ne_finish hturn
  have hpaces := hmoves.paces_lt hread
  have hstage := h.stage.step hplan hmoves hread hramp
  have hsome := hmoves.isNone_eq_false hramp
  refine ⟨(hlog.log_of_turn? hread hturn).trans h.log_eq, h.recorded, hstage,
    hmoves.continuous_eq.trans h.continuous, fun hc => ?_, fun hnone => ?_, ?_⟩
  · rw [hsome, h.single hc]
    rfl
  · rw [hnone] at hsome
    cases hsome
  · have := h.pace
    omega

theorem read (h : plan.Book log r₀ n (some .read) r cycles counts entries)
    (hplan : plan.Sweeps all) (hp : plan.Private) (hlog : plan.Records log)
    (hturn : plan.turn? .read r = some (following, r')) :
    ∃ counts', plan.Book log r₀ (n + 1) following r' cycles counts' (entries ++ [(rows r.status).flatten]) := by
  have hmoves := hp.moves h.stage.ne_finish hturn
  obtain ⟨rfl, hprog⟩ := hmoves.of_read
  obtain ⟨hne, i, hi, hcnt⟩ := h.stage
  have hlog' := hlog.log_of_turn?_read hp hturn
  rw [h.log_eq, append_assoc] at hlog'
  have hpace := h.pace
  have hitem : (plan.items.map flatten)[i]? = some ((rows r.status).flatten.map .ok) := by
    obtain ⟨ds, hds, -⟩ := hi.dials
    have hrows : rows r.status = ds.map (·.row) := Progress.rows_of_dials hds
    rw [getElem?_map, hi.getElem?_items hplan hds, hrows, map_flatten, map_map]
    rfl
  have hbook (counts' : List Nat) (hlen : counts'.length = i + 1)
      (hrec : Recorded (plan.items.map flatten) (plan.guards = []) cycles counts'
        (entries ++ [(rows r.status).flatten])) :
      plan.Book log r₀ (n + 1) (some .condition) r' cycles counts' (entries ++ [(rows r.status).flatten]) := by
    refine ⟨hlog', hrec, ⟨hne, i, hprog ▸ hi, hlen⟩,
      hmoves.continuous_eq.trans h.continuous, h.single, fun hnone => (by cases hnone), ?_⟩
    simp only [length_append, length_singleton, paces] at hpace ⊢
    omega
  rcases hcnt with rfl | ⟨hcnt, hguards⟩
  · exact ⟨counts ++ [1], hbook _ (by simp) (h.recorded.first hitem)⟩
  · obtain ⟨counts₀, c, rfl⟩ := (eq_nil_or_concat' counts).resolve_left (ne_nil_of_length_eq_add_one hcnt)
    rw [length_append, length_singleton, Nat.add_right_cancel_iff] at hcnt
    exact ⟨counts₀ ++ [c + 1], hbook _ (by simp [hcnt]) (h.recorded.again hguards (hcnt ▸ hitem))⟩

theorem rampDown (h : plan.Book log r₀ n (some .rampDown) r cycles counts entries)
    (hp : plan.Private) (hlog : plan.Records log) (hturn : plan.turn? .rampDown r = some (following, r')) :
    plan.Book log r₀ (n + 1) following r' (cycles ++ [counts]) [] entries := by
  have hmoves := hp.moves h.stage.ne_finish hturn
  have hpaces := hmoves.paces_lt (by decide)
  have hlen : counts.length = (plan.items.map flatten).length := h.stage.trans (length_map _).symm
  obtain ⟨-, hnext⟩ := hmoves.of_rampDown
  refine ⟨(hlog.log_of_turn? (by decide) hturn).trans h.log_eq, h.recorded.close hlen, ?_,
    hmoves.continuous_eq.trans h.continuous, fun hc => ?_, fun _ => by simp, ?_⟩
  · rcases hnext with rfl | ⟨rfl, -⟩ <;> rfl
  · rcases hnext with rfl | ⟨rfl, hcont⟩
    · simp [h.single hc]
    · cases (h.continuous.trans hc).symm.trans hcont
  · have := h.pace
    omega

theorem step (h : plan.Book log r₀ n (some phase) r cycles counts entries)
    (hplan : plan.Sweeps all) (hp : plan.Private) (hlog : plan.Records log)
    (hturn : plan.turn? phase r = some (following, r')) :
    ∃ cycles' counts' entries', plan.Book log r₀ (n + 1) following r' cycles' counts' entries' := by
  by_cases hread : phase = .read
  · subst hread
    obtain ⟨counts', h'⟩ := h.read hplan hp hlog hturn
    exact ⟨cycles, counts', _, h'⟩
  · by_cases hramp : phase = .rampDown
    · subst hramp
      exact ⟨cycles ++ [counts], [], entries, h.rampDown hp hlog hturn⟩
    · exact ⟨cycles, counts, entries, h.quiet hplan hp hlog hturn hread hramp⟩

end Book

omit [Clocked σ] in
theorem Sweeps.map_flatten_items (hplan : plan.Sweeps all) : plan.items.map flatten = sweepItems all := by
  rw [items, hplan.groups, arrange_fst, sweepItems]

theorem exists_book (hplan : plan.Sweeps all) (hp : plan.Private) (hlog : plan.Records log) {n : Nat}
    {start r : Run σ} {following : Option Phase} (h : plan.after? n (some .init, start) = some (following, r)) :
    ∃ cycles counts entries, plan.Book log start n following r cycles counts entries :=
  after?_induction (I := fun n following r => ∃ cycles counts entries,
      plan.Book log start n following r cycles counts entries)
    ⟨[], [], [], .start⟩
    (fun _ _ _ _ _ ⟨_, _, _, hbook⟩ hturn => hbook.step hplan hp hlog hturn) h

/-- The book of a sweep. After any turns without a fault it holds full cycles, in each of which every item stands in
its turn, once for every reading, and the first items of one more. A run that has come to its end has left full
cycles, and one only unless it is continuous. -/
theorem records_after? (hplan : plan.Sweeps all) (henabled : ∃ x ∈ all, x.enabled = true)
    (hp : plan.Private) (hlog : plan.Records log) {n : Nat} {start r : Run σ}
    {following : Option Phase} (h : plan.after? n (some .init, start) = some (following, r)) :
    arrange all = (groupsOf all, (sweepItems all).length) ∧
    ∃ cycles counts entries, log r.world = log start.world ++ entries ∧
      Recorded (sweepItems all) (plan.guards = []) cycles counts entries ∧
      n ≤ 9 * entries.length + 6 ∧
      (start.status.continuous = false → cycles.length = if following.isNone then 1 else 0) ∧
      (following = none → cycles ≠ [] ∧ counts = [] ∧
        ∀ limit, n ≤ limit → log (plan.run limit start).2.world = log r.world) := by
  have hlength : (arrange all).2 = (sweepItems all).length := by
    rw [arrange_snd henabled, sweepItems, length_map, length_itemsOf_columnsOf]
  refine ⟨Prod.ext (arrange_fst all) hlength, ?_⟩
  obtain ⟨cycles, counts, entries, hbook⟩ := exists_book hplan hp hlog h
  refine ⟨cycles, counts, entries, hbook.log_eq, hplan.map_flatten_items ▸ hbook.recorded, ?_, hbook.single, ?_⟩
  · have hpace := hbook.pace
    have hpaces := paces_le following
    omega
  · rintro rfl
    refine ⟨hbook.ended rfl, eq_nil_of_length_eq_zero hbook.stage, fun limit hlimit => ?_⟩
    rw [run_of_after? h hlimit]
    exact finish_preserves (hlog.undisturbed (log r.world)) (fun _ h => (hlog.surroundings (.onClose h)).preserves _)
      (fun _ hs => hs) r rfl

end Plan

namespace Notebook

theorem plan_records {groups : List (List Variable)} {itemCount : Int} {times : List (List (Int × Float))} :
    (plan groups itemCount times).Records fun w => w.entries.map (·.1) where
  surroundings hact r := by
    obtain ⟨status, t, b, h, -⟩ := snd_of_surrounds idle_pure hact r
    rw [h]
  resources hx v r := by
    obtain ⟨written, h⟩ := snd_of_sets hx v r
    rw [h]
  data := ⟨_, rfl, fun t vs ms r => map_append⟩

/-- The sample leaves the records of one cycle. -/
theorem sample_records : ∃ cycle entries, (samplePlan.run 100 sampleStart).2.world.entries.map (·.1) = entries ∧
      Recorded (sweepItems sample) (samplePlan.guards = []) [cycle] [] entries ∧
      (sweepItems sample).length = 4 := by
  obtain ⟨⟨following, r⟩, hafter, hnone⟩ := Option.map_eq_some_iff.mp samplePlan_ends
  obtain rfl : following = none := hnone
  obtain ⟨harrange, cycles, counts, entries, hlog, hrecorded, -, hsingle, hended⟩ :=
    Plan.records_after? samplePlan_sweeps ⟨listed "x" 2 [1, 2], by simp [sample], rfl⟩ plan_private plan_records hafter
  obtain ⟨-, rfl, hrun⟩ := hended rfl
  obtain ⟨cycle, rfl⟩ := length_eq_one_iff.mp (hsingle rfl)
  refine ⟨cycle, entries, (hrun 100 (by decide)).trans hlog, hrecorded, ?_⟩
  have hcount : (4 : Int) = (arrange sample).2 := samplePlan_sweeps.itemCount
  rw [harrange] at hcount
  omega

end Notebook

end LabBench.Sweep
