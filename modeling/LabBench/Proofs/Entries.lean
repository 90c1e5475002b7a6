import LabBench.Entries
import Mathlib.Data.List.Nodup
/-!
# Entries by key

Entries that are put one after the other can be looked up again. Where all entries for a key are the same, the
order in which they came does not matter.
-/

namespace LabBench.Entries

open List

variable {κ α : Type} {pairs entries entries' : List (κ × α)} {k : κ} {a : α} {e : κ × α}

/-- No two of the pairs give a key different values. -/
def Unambiguous (pairs : List (κ × α)) : Prop :=
  ∀ e ∈ pairs, ∀ e' ∈ pairs, e.1 = e'.1 → e.2 = e'.2

theorem unambiguous_of_nodup (h : (pairs.map (·.1)).Nodup) : Unambiguous pairs :=
  fun _ he _ he' hkey => congrArg Prod.snd (inj_on_of_nodup_map h he he' hkey)

variable [BEq κ]

/-- Several entries, one after the other. -/
def putAll (pairs entries : List (κ × α)) : List (κ × α) :=
  pairs.foldl (fun entries e => put e.1 e.2 entries) entries

theorem putAll_cons (e : κ × α) (pairs entries : List (κ × α)) :
    putAll (e :: pairs) entries = putAll pairs (put e.1 e.2 entries) :=
  rfl

theorem putAll_append (pairs pairs' entries : List (κ × α)) :
    putAll (pairs ++ pairs') entries = putAll pairs' (putAll pairs entries) :=
  foldl_append

theorem ofList_eq (pairs : List (κ × α)) : ofList pairs = putAll pairs [] :=
  rfl

variable [LawfulBEq κ]

/-! ### Keys -/

theorem get?_eq_none_iff : get? k entries = none ↔ k ∉ entries.map (·.1) := by
  constructor
  · intro hnone hmem
    obtain ⟨a, ha⟩ := get?_of_mem_keys hmem
    rw [hnone] at ha
    cases ha
  · intro hmem
    cases hget : get? k entries with
    | none => rfl
    | some a => exact absurd (mem_map_of_mem (mem_of_get? hget)) hmem

theorem has_congr (h : get? k entries' = get? k entries) : has k entries' = has k entries := by
  rw [Bool.eq_iff_iff, has_iff_mem_keys, has_iff_mem_keys, ← not_iff_not, ← get?_eq_none_iff, ← get?_eq_none_iff, h]

theorem put_of_not_mem (h : k ∉ entries.map (·.1)) : put k a entries = entries ++ [(k, a)] := by
  induction entries with
  | nil => rfl
  | cons e rest ih =>
    simp only [map_cons, mem_cons, not_or] at h
    rw [put, if_neg (by simpa using Ne.symm h.1), ih h.2, cons_append]

theorem map_fst_put_of_mem (h : k ∈ entries.map (·.1)) : (put k a entries).map (·.1) = entries.map (·.1) := by
  induction entries with
  | nil => cases h
  | cons e rest ih =>
    rw [put]
    split
    · rfl
    · rename_i hne
      have hrest : k ∈ rest.map (·.1) := by
        refine (mem_cons.mp h).resolve_left ?_
        rintro rfl
        exact hne (beq_self_eq_true e.1)
      rw [map_cons, map_cons, ih hrest]

section

variable (h : (entries.map (·.1)).Nodup)

include h

theorem nodup_keys_put : ((put k a entries).map (·.1)).Nodup := by
  by_cases hmem : k ∈ entries.map (·.1)
  · rw [map_fst_put_of_mem hmem]
    exact h
  · rw [put_of_not_mem hmem, map_append]
    exact h.append (nodup_singleton k) (by simpa using hmem)

theorem get?_eq_some_iff : get? k entries = some a ↔ (k, a) ∈ entries := by
  refine ⟨mem_of_get?, fun hmem => ?_⟩
  obtain ⟨b, hb⟩ := get?_of_mem_keys (mem_map_of_mem hmem)
  have hval : b = a := unambiguous_of_nodup h _ (mem_of_get? hb) _ hmem rfl
  exact hval ▸ hb

theorem perm_of_get?_eq
    (h' : (entries'.map (·.1)).Nodup) (hget : ∀ k, get? k entries = get? k entries') : entries.Perm entries' := by
  refine (perm_ext_iff_of_nodup h.of_map h'.of_map).mpr fun e => ?_
  rw [← get?_eq_some_iff h, ← get?_eq_some_iff h', hget]

theorem get?_of_perm (hperm : entries'.Perm entries) (k : κ) : get? k entries' = get? k entries := by
  have h' : (entries'.map (·.1)).Nodup := (hperm.map _).nodup_iff.mpr h
  ext a
  rw [get?_eq_some_iff h, get?_eq_some_iff h', hperm.mem_iff]

theorem put_perm [DecidableEq κ]
    (hperm : entries'.Perm entries) (k : κ) (a : α) : (put k a entries').Perm (put k a entries) := by
  have h' : (entries'.map (·.1)).Nodup := (hperm.map _).nodup_iff.mpr h
  refine perm_of_get?_eq (nodup_keys_put h') (nodup_keys_put h) fun k' => ?_
  rw [get?_put, get?_put, get?_of_perm h hperm]

end

/-! ### Several entries -/

theorem mem_keys_putAll : k ∈ (putAll pairs entries).map (·.1) ↔ k ∈ pairs.map (·.1) ∨ k ∈ entries.map (·.1) := by
  induction pairs generalizing entries with
  | nil => simp [putAll]
  | cons e rest ih =>
    rw [putAll_cons, ih, mem_keys_put, map_cons, mem_cons, or_left_comm, or_assoc]

theorem nodup_keys_putAll (h : (entries.map (·.1)).Nodup) : ((putAll pairs entries).map (·.1)).Nodup := by
  induction pairs generalizing entries with
  | nil => exact h
  | cons e rest ih => exact ih (nodup_keys_put h)

theorem mem_or_mem_of_mem_put (h : e ∈ put k a entries) : e = (k, a) ∨ e ∈ entries := by
  induction entries with
  | nil => exact .inl (mem_singleton.mp h)
  | cons b rest ih =>
    rw [put] at h
    split at h
    · rename_i heq
      rw [eq_of_beq heq] at h
      exact (mem_cons.mp h).imp_right (mem_cons_of_mem b)
    · rcases mem_cons.mp h with rfl | h
      · exact .inr mem_cons_self
      · exact (ih h).imp_right (mem_cons_of_mem b)

theorem mem_or_mem_of_mem_putAll (h : e ∈ putAll pairs entries) : e ∈ pairs ∨ e ∈ entries := by
  induction pairs generalizing entries with
  | nil => exact .inr h
  | cons b rest ih =>
    rcases ih h with h | h
    · exact .inl (mem_cons_of_mem b h)
    · rcases mem_or_mem_of_mem_put h with rfl | h
      · exact .inl mem_cons_self
      · exact .inr h

theorem mem_of_mem_ofList (h : e ∈ ofList pairs) : e ∈ pairs :=
  (mem_or_mem_of_mem_putAll h).resolve_right not_mem_nil

theorem nodup_keys_ofList (pairs : List (κ × α)) : ((ofList pairs).map (·.1)).Nodup :=
  nodup_keys_putAll nodup_nil

theorem putAll_of_nodup (h : ((entries ++ pairs).map (·.1)).Nodup) : putAll pairs entries = entries ++ pairs := by
  induction pairs generalizing entries with
  | nil => rw [append_nil]; rfl
  | cons e rest ih =>
    have hfresh : e.1 ∉ entries.map (·.1) := by
      rw [map_append, map_cons] at h
      intro hmem
      exact (nodup_append.mp h).2.2 e.1 hmem e.1 mem_cons_self rfl
    have happ : entries ++ [(e.1, e.2)] ++ rest = entries ++ e :: rest := by simp
    rw [putAll_cons, put_of_not_mem hfresh, ih (happ ▸ h), happ]

theorem ofList_eq_self (h : (pairs.map (·.1)).Nodup) : ofList pairs = pairs :=
  putAll_of_nodup h

theorem get?_putAll_eq_some_iff [DecidableEq κ] (h : Unambiguous pairs) : get? k (putAll pairs entries) = some a ↔
      (k, a) ∈ pairs ∨ k ∉ pairs.map (·.1) ∧ get? k entries = some a := by
  induction pairs generalizing entries with
  | nil => simp [putAll]
  | cons e rest ih =>
    have hrest : Unambiguous rest := fun b hb c hc =>
      h b (mem_cons_of_mem e hb) c (mem_cons_of_mem e hc)
    rw [putAll_cons, ih hrest, get?_put, map_cons, mem_cons, mem_cons, Prod.ext_iff]
    by_cases hk : e.1 = k
    · subst hk
      simp only [beq_self_eq_true, if_true, Option.some.injEq, true_and, true_or, not_true_eq_false,
        false_and, or_false]
      constructor
      · rintro (hmem | ⟨-, ha⟩)
        · exact .inr hmem
        · exact .inl ha.symm
      · rintro (ha | hmem)
        -- a later entry for the key is the same one
        · by_cases hlater : e.1 ∈ rest.map (·.1)
          · obtain ⟨b, hb, hkey⟩ := mem_map.mp hlater
            have hval : b.2 = e.2 := h b (mem_cons_of_mem e hb) e mem_cons_self hkey
            refine .inl ?_
            rw [ha, ← hval, ← hkey]
            exact hb
          · exact .inr ⟨hlater, ha.symm⟩
        · exact .inl hmem
    · simp [hk, Ne.symm hk]

/-- If all keys are put again, then nothing is left of the former entries. -/
theorem get?_putAll_of_subset [DecidableEq κ] (h : (pairs.map (·.1)).Nodup)
    (hkeys : ∀ k ∈ entries.map (·.1), k ∈ pairs.map (·.1)) (k : κ) :
    get? k (putAll pairs entries) = get? k pairs := by
  ext a
  rw [get?_putAll_eq_some_iff (unambiguous_of_nodup h), get?_eq_some_iff h, or_iff_left]
  rintro ⟨hnot, hget⟩
  exact hnot (hkeys k (mem_map_of_mem (mem_of_get? hget)))

theorem get?_putAll_congr [DecidableEq κ] (h : ∀ k, get? k entries' = get? k entries)
    (pairs : List (κ × α)) (k : κ) : get? k (putAll pairs entries') = get? k (putAll pairs entries) := by
  induction pairs generalizing entries entries' with
  | nil => exact h k
  | cons e rest ih =>
    refine ih fun k' => ?_
    rw [get?_put, get?_put, h]

theorem get?_ofList_eq_some_iff [DecidableEq κ] (h : Unambiguous pairs) :
    get? k (ofList pairs) = some a ↔ (k, a) ∈ pairs := by
  have hnone : ¬get? k ([] : List (κ × α)) = some a := by rintro ⟨⟩
  rw [ofList_eq, get?_putAll_eq_some_iff h]
  exact or_iff_left fun hempty => hnone hempty.2

theorem get?_ofList_congr [DecidableEq κ] {pairs' : List (κ × α)} (h : Unambiguous pairs)
    (hmem : ∀ e, e ∈ pairs' ↔ e ∈ pairs) (k : κ) : get? k (ofList pairs') = get? k (ofList pairs) := by
  have h' : Unambiguous pairs' := fun e he e' he' => h e ((hmem e).mp he) e' ((hmem e').mp he')
  ext a
  rw [get?_ofList_eq_some_iff h, get?_ofList_eq_some_iff h', hmem]

end LabBench.Entries
