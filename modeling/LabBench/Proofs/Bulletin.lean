import LabBench.Bulletin
import LabBench.Proofs.Frame
/-!
# Bulletins and their announcements

Whoever follows the announcements of a bulletin knows what stands in it. An operation that fails announces nothing and
changes nothing.
-/

namespace LabBench.Bulletin

open Act List

inductive Operation where
  | add (key v : Value)
  | remove (key : Value)

namespace Operation

def act : Operation → Act Bulletin PUnit
  | add key v => Bulletin.add key v
  | remove key => Bulletin.remove key

/-- How an operation on a bulletin is announced. The lock is held meanwhile. -/
def notice (b : Bulletin) : Operation → Notice
  | add key v => ⟨b.topic ++ "." ++ "added", b.depth + 1, key, some v⟩
  | remove key => ⟨b.topic ++ "." ++ "removed", b.depth + 1, key, none⟩

end Operation

/-- The bulletin after operations, of which some may fail. -/
def performAll (ops : List Operation) (b : Bulletin) : Bulletin :=
  ops.foldl (fun b op => (op.act b).2) b

def Notice.applyTo (entries : List (Value × Value)) (n : Notice) : List (Value × Value) :=
  n.value.elim (drop n.name entries) (put n.name · entries)

/-- What follows from announcements about a bulletin that had some entries before. -/
def replay (notices : List Notice) (entries : List (Value × Value)) : List (Value × Value) :=
  notices.foldl Notice.applyTo entries

variable {entries : List (Value × Value)} {key v : Value} {e : Value × Value} {b : Bulletin}

/-! ### Entries -/

theorem find?_eq_none_iff : find? key entries = none ↔ ∀ e ∈ entries, ¬sameKey e.1 key := by
  induction entries with
  | nil => simp [find?]
  | cons e rest ih =>
    rw [find?, forall_mem_cons]
    split <;> simp_all

theorem put_of_find?_eq_none (h : find? key entries = none) : put key v entries = entries ++ [(key, v)] := by
  rw [find?_eq_none_iff] at h
  induction entries with
  | nil => rfl
  | cons e rest ih =>
    rw [forall_mem_cons] at h
    rw [put, if_neg h.1, ih h.2, cons_append]

theorem drop_eq_eraseP (key : Value) (entries : List (Value × Value)) :
    drop key entries = entries.eraseP (sameKey ·.1 key) := by
  induction entries with
  | nil => rfl
  | cons e rest ih =>
    rw [drop, eraseP_cons, ih, cond_eq_ite]

/-! ### Operations -/

theorem locked_apply (act : Act Bulletin PUnit) (b : Bulletin) :
    locked act b = (act { b with depth := b.depth + 1 }).map id fun t => { t with depth := t.depth - 1 } :=
  rfl

theorem perform_cases (op : Operation) (b : Bulletin) : (∃ f, op.act b = (.error f, b)) ∨ (op.act b = (.ok ⟨⟩,
        { b with entries := (op.notice b).applyTo b.entries, notices := b.notices ++ [op.notice b] }) ∧
      ((op.notice b).value.isSome → find? (op.notice b).name b.entries = none)) := by
  cases op with
  | add key v =>
    change (∃ f, locked _ b = _) ∨ locked _ b = _ ∧ _
    rw [locked_apply]
    unfold checkKey
    split
    · rw [pure_bind, get_bind]
      dsimp only
      cases hfind : find? key b.entries with
      | some w => exact .inl ⟨_, rfl⟩
      | none =>
        cases v with
        | none => exact .inl ⟨_, rfl⟩
        | _ => exact .inr ⟨rfl, fun _ => hfind⟩
    · exact .inl ⟨_, rfl⟩
  | remove key =>
    change (∃ f, locked _ b = _) ∨ locked _ b = _ ∧ _
    rw [locked_apply]
    unfold checkKey
    split
    · rw [pure_bind, get_bind]
      dsimp only
      cases find? key b.entries with
      | none => exact .inl ⟨_, rfl⟩
      | some w => exact .inr ⟨rfl, nofun⟩
    · exact .inl ⟨_, rfl⟩

/-! ### Announcements -/

/-- Whatever is announced as added was not there before. -/
def Orderly : List Notice → List (Value × Value) → Prop
  | [], _ => True
  | n :: rest, entries => (n.value.isSome → find? n.name entries = none) ∧ Orderly rest (n.applyTo entries)

theorem exists_orderly (ops : List Operation) (b : Bulletin) : ∃ sent,
    performAll ops b = { b with entries := replay sent b.entries, notices := b.notices ++ sent } ∧
      (∀ n ∈ sent, ∃ op ∈ ops, n = op.notice b) ∧ Orderly sent b.entries := by
  induction ops generalizing b with
  | nil => exact ⟨[], by rw [append_nil]; rfl, nofun, trivial⟩
  | cons op rest ih =>
    rcases perform_cases op b with ⟨f, h⟩ | ⟨h, hnew⟩
    · obtain ⟨sent, hall, hof, hord⟩ := ih b
      refine ⟨sent, ?_, fun n hn => (hof n hn).imp fun _ => .imp_left (mem_cons_of_mem op), hord⟩
      rw [← hall, performAll, foldl_cons, h]
      rfl
    · obtain ⟨sent, hall, hof, hord⟩ := ih (op.act b).2
      rw [h] at hall hof hord
      refine ⟨op.notice b :: sent, ?_, ?_, hnew, hord⟩
      · rw [append_cons, performAll, foldl_cons, h]
        exact hall
      · intro n hn
        rcases mem_cons.mp hn with rfl | hn
        · exact ⟨op, mem_cons_self, rfl⟩
        · obtain ⟨op', hop, rfl⟩ := hof n hn
          exact ⟨op', mem_cons_of_mem op hop, by cases op' <;> rfl⟩

/-- An entry stays until its removal is announced. -/
theorem exists_removal {between rest : List Notice} {n : Notice} (h : Orderly (between ++ n :: rest) entries)
    (hn : n.value.isSome) (he : e ∈ entries) (hkey : sameKey e.1 n.name) :
    ∃ m ∈ between, m.value = none ∧ sameKey e.1 m.name := by
  induction between generalizing entries with
  | nil => exact absurd hkey (find?_eq_none_iff.mp (h.1 hn) e he)
  | cons m between ih =>
    have hlater (hstay : e ∈ m.applyTo entries) : ∃ m' ∈ m :: between, m'.value = none ∧ sameKey e.1 m'.name :=
      (ih h.2 hstay).imp fun _ => .imp_left (mem_cons_of_mem m)
    cases hval : m.value with
    | none =>
      by_cases hsame : sameKey e.1 m.name
      · exact ⟨m, mem_cons_self, hval, hsame⟩
      · refine hlater ?_
        rw [Notice.applyTo, hval, Option.elim_none, drop_eq_eraseP]
        exact (mem_eraseP_of_neg (p := (sameKey ·.1 m.name)) hsame).mpr he
    | some v =>
      refine hlater ?_
      rw [Notice.applyTo, hval, Option.elim_some, put_of_find?_eq_none (h.1 (by rw [hval]; rfl))]
      exact mem_append_left _ he

theorem Orderly.append {first rest : List Notice} (h : Orderly (first ++ rest) entries) :
    Orderly rest (replay first entries) := by
  induction first generalizing entries with
  | nil => exact h
  | cons n first ih => exact ih h.2

/-- The announcements that were made give the entries, from those at the start. No entry is overwritten by a later
addition, unless its removal was announced in between. A failure changes and announces nothing. -/
theorem replay_performAll (ops : List Operation) (b : Bulletin) : ∃ sent,
    performAll ops b = { b with entries := replay sent b.entries, notices := b.notices ++ sent } ∧
      (∀ n ∈ sent, ∃ op ∈ ops, n = op.notice b) ∧
      (∀ first between n rest, sent = first ++ (between ++ n :: rest) → n.value.isSome →
        ∀ e ∈ replay first b.entries, sameKey e.1 n.name → ∃ m ∈ between, m.value = none ∧ sameKey e.1 m.name) ∧
      ∀ (op : Operation) f t, op.act (performAll ops b) = (.error f, t) → t = performAll ops b := by
  obtain ⟨sent, hall, hof, hord⟩ := exists_orderly ops b
  refine ⟨sent, hall, hof, ?_, fun op f t h => ?_⟩
  · rintro first between n rest rfl hn e he
    exact exists_removal hord.append hn he
  · rcases perform_cases op (performAll ops b) with ⟨_, hfail⟩ | ⟨hdone, -⟩
    · rw [hfail] at h
      cases h
      rfl
    · rw [hdone] at h
      cases h

end LabBench.Bulletin
