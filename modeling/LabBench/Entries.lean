/-!
# Entries

Lists of entries by key, in the order in which the keys came. There is one entry for a key.
-/

namespace LabBench.Entries

variable {κ α : Type} [BEq κ]

def get? (key : κ) : List (κ × α) → Option α
  | [] => none
  | (k, a) :: rest => if k == key then some a else get? key rest

def has (key : κ) (entries : List (κ × α)) : Bool :=
  entries.any fun e => e.1 == key

/-- A new entry, in the place of the old one for the key or at the end. -/
def put (key : κ) (a : α) : List (κ × α) → List (κ × α)
  | [] => [(key, a)]
  | (k, b) :: rest => if k == key then (k, a) :: rest else (k, b) :: put key a rest

def ofList (pairs : List (κ × α)) : List (κ × α) :=
  pairs.foldl (fun entries (k, a) => put k a entries) []

def drop (key : κ) : List (κ × α) → List (κ × α)
  | [] => []
  | (k, a) :: rest => if k == key then rest else (k, a) :: drop key rest

theorem get?_put [LawfulBEq κ] [DecidableEq κ] (key k : κ) (a : α) (entries : List (κ × α)) :
    get? k (put key a entries) = if key == k then some a else get? k entries := by
  induction entries with
  | nil => simp [put, get?]
  | cons e rest ih =>
    obtain ⟨k', b⟩ := e
    by_cases h : k' == key
    · have hk : k' = key := eq_of_beq h
      subst hk
      by_cases hk : k' == k <;> simp [put, get?, hk]
    · by_cases hk : k' == k
      · have hk' : k' = k := eq_of_beq hk
        have hne : ¬ (key == k) = true := by
          intro hkey
          exact h (by rw [hk', eq_of_beq hkey]; exact beq_self_eq_true k)
        simp [put, get?, h, hk, hne]
      · simp [put, get?, h, hk, ih]

theorem mem_of_get? [LawfulBEq κ] {key : κ} {a : α} {entries : List (κ × α)} (h : get? key entries = some a) :
    (key, a) ∈ entries := by
  induction entries with
  | nil => cases h
  | cons e rest ih =>
    rw [get?] at h
    split at h
    · rename_i heq
      cases h
      rw [← eq_of_beq heq]
      exact List.mem_cons_self
    · exact List.mem_cons_of_mem e (ih h)

theorem get?_of_mem_keys [LawfulBEq κ] {key : κ} {entries : List (κ × α)} (h : key ∈ entries.map (·.1)) :
    ∃ a, get? key entries = some a := by
  induction entries with
  | nil => cases h
  | cons e rest ih =>
    rw [get?]
    split
    · exact ⟨e.2, rfl⟩
    · rename_i hne
      rcases List.mem_cons.mp h with rfl | h
      · exact absurd (beq_self_eq_true e.1) hne
      · exact ih h

theorem has_iff_mem_keys [LawfulBEq κ] {key : κ} {entries : List (κ × α)} :
    has key entries = true ↔ key ∈ entries.map (·.1) := by
  simp only [has, List.any_eq_true, beq_iff_eq, List.mem_map]

theorem mem_keys_put [LawfulBEq κ] {key k : κ} {a : α} {entries : List (κ × α)} :
    k ∈ (put key a entries).map (·.1) ↔ k = key ∨ k ∈ entries.map (·.1) := by
  induction entries with
  | nil => simp [put]
  | cons e rest ih =>
    rw [put]
    split
    · rename_i heq
      simp only [List.map_cons, List.mem_cons, eq_of_beq heq, ← or_assoc, or_self]
    · simp only [List.map_cons, List.mem_cons, ih, or_left_comm]

end LabBench.Entries
