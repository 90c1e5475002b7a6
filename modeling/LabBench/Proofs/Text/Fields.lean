import LabBench.Proofs.Frame
import LabBench.Text.Table
/-!
# Tables that cannot be read

The lines of a file have line ends at their ends only. When such lines are read as a table, two things
can go wrong: a field is not a number, or it has more characters than a field may have. The second
one is a fault of its own kind, and takes a file that is longer than the limit.
-/

namespace LabBench.Text

open List

/-! ### Lines of a file -/

/-- A line that does not go on after a line end. -/
def IsLine (line : List Char) : Prop :=
  ∀ c ∈ line.dropLast, c ≠ '\n' ∧ c ≠ '\r'

theorem IsLine.tail {c d : Char} {rest : List Char} (h : IsLine (c :: d :: rest)) :
    (c ≠ '\n' ∧ c ≠ '\r') ∧ IsLine (d :: rest) := by
  rw [IsLine, dropLast_cons_cons, forall_mem_cons] at h
  exact h

theorem isLine_of_mem_fileLines {cs line : List Char} (h : line ∈ fileLines cs) : IsLine line := by
  fun_induction fileLines cs generalizing line with
  | case1 => cases h
  | case2 rest ih | case3 c rest _ _ ih =>
    rcases mem_cons.mp h with rfl | h
    · exact fun c hc => nomatch hc
    · exact ih h
  | case4 c rest _ _ _ _ =>
    rw [mem_singleton] at h
    subst h
    exact fun c hc => nomatch hc
  | case5 c rest _ hc l ls hrest ih =>
    rw [hrest] at ih
    rcases mem_cons.mp h with rfl | h
    · have hl : IsLine l := ih mem_cons_self
      cases l with
      | nil => exact fun c hc => nomatch hc
      | cons d l =>
        have hplain : c ≠ '\n' ∧ c ≠ '\r' := by simpa using hc
        rw [IsLine, dropLast_cons_cons, forall_mem_cons]
        exact ⟨hplain, hl⟩
    · exact ih (mem_cons_of_mem l h)

/-- A file is not shorter than its lines, since two characters may be one line end. -/
theorem length_flatten_fileLines (cs : List Char) : (fileLines cs).flatten.length ≤ cs.length := by
  fun_induction fileLines cs with
  | case1 => exact Nat.le_refl 0
  | case2 rest ih | case3 c rest _ _ ih =>
    simp only [flatten_cons, length_append, length_cons, length_nil]
    omega
  | case4 c rest _ _ _ _ => simp
  | case5 c rest _ _ l ls hrest ih =>
    rw [hrest] at ih
    simp only [flatten_cons, length_append, length_cons] at ih ⊢
    omega

/-! ### Records -/

namespace Record

/-- A character has been taken into a record, or the field was full. Only a line end leads to a line
end. -/
def Takes (r : Record) (c : Char) (next : Outcome Record) : Prop :=
  (∃ r', next = .ok r' ∧ r'.size ≤ r.size + 1 ∧ (c ≠ '\n' ∧ c ≠ '\r' → r'.phase ≠ .lineEnd)) ∨
    (next = .error (.plain .other) ∧ fieldLimit ≤ r.size)

theorem takes_add (r : Record) (c : Char) {next : Phase} (hnext : next ≠ .lineEnd) : r.Takes c (r.add c next) := by
  unfold add
  split
  · exact .inl ⟨_, rfl, Nat.le_refl _, fun _ => hnext⟩
  · rename_i hfull
    exact .inr ⟨rfl, Nat.le_of_not_lt hfull⟩

theorem takes_save (r : Record) (c : Char) {next : Phase} (hnext : next ≠ .lineEnd) : r.Takes c (.ok (r.save next)) :=
  .inl ⟨_, rfl, Nat.zero_le _, fun _ => hnext⟩

theorem takes_lineEnd (r : Record) {c : Char} (hc : (c == '\n' || c == '\r') = true) {r' : Record}
    (hsize : r'.size ≤ r.size + 1) : r.Takes c (.ok r') :=
  .inl ⟨_, rfl, hsize, fun hplain => by simp [hplain] at hc⟩

theorem takes_startField (r : Record) (c : Char) : r.Takes c (r.startField c) := by
  unfold startField
  split
  · rename_i hend
    exact r.takes_lineEnd hend (Nat.zero_le _)
  · split
    · exact .inl ⟨_, rfl, Nat.le_succ _, fun _ => nofun⟩
    · split
      · exact r.takes_save c nofun
      · exact r.takes_add c nofun

theorem takes_feed {r : Record} (hr : r.phase ≠ .lineEnd) (c : Char) : r.Takes c (r.feed c) := by
  unfold feed
  cases hphase : r.phase with
  | recordStart =>
    dsimp only
    split
    · rename_i hend
      exact r.takes_lineEnd hend (Nat.le_succ _)
    · exact r.takes_startField c
  | fieldStart => exact r.takes_startField c
  | field =>
    dsimp only
    split
    · rename_i hend
      exact r.takes_lineEnd hend (Nat.zero_le _)
    · split
      · exact r.takes_save c nofun
      · exact r.takes_add c nofun
  | quoted =>
    dsimp only
    split
    · exact .inl ⟨_, rfl, Nat.le_succ _, fun _ => nofun⟩
    · exact r.takes_add c nofun
  | quoteInQuoted =>
    dsimp only
    split
    · exact r.takes_add c nofun
    · split
      · exact r.takes_save c nofun
      · split
        · rename_i hend
          exact r.takes_lineEnd hend (Nat.zero_le _)
        · exact r.takes_add c nofun
  | lineEnd => exact absurd hphase hr

/-- A line of a file can be read to its end, unless there is a field that is too long. -/
theorem foldlM_feed_cases {line : List Char} (hline : IsLine line) {r : Record} (hr : r.phase ≠ .lineEnd) :
    (∃ r', line.foldlM feed r = .ok r' ∧ r'.size ≤ r.size + line.length) ∨
      (line.foldlM feed r = .error (.plain .other) ∧ fieldLimit < r.size + line.length) := by
  induction line generalizing r with
  | nil => exact .inl ⟨r, rfl, Nat.le_refl _⟩
  | cons c rest ih =>
    rw [foldlM_cons]
    rcases takes_feed hr c with ⟨r', hfeed, hsize, hphase⟩ | ⟨hfeed, hfull⟩
    · rw [hfeed]
      change (∃ s, rest.foldlM feed r' = .ok s ∧ _) ∨ (rest.foldlM feed r' = _ ∧ _)
      rw [length_cons]
      cases rest with
      | nil => exact .inl ⟨r', rfl, by simpa using hsize⟩
      | cons d rest =>
        obtain ⟨hplain, hrest⟩ := hline.tail
        rcases ih hrest (hphase hplain) with ⟨s, hs, hle⟩ | ⟨hs, hlong⟩
        · exact .inl ⟨s, hs, by omega⟩
        · exact .inr ⟨hs, by omega⟩
    · rw [hfeed]
      exact .inr ⟨rfl, by rw [length_cons]; omega⟩

theorem endLine_phase (r : Record) : r.endLine.phase ≠ .lineEnd := by
  unfold endLine
  split <;> simp_all [save]

theorem endLine_size (r : Record) : r.endLine.size ≤ r.size := by
  unfold endLine
  split
  · exact Nat.le_refl _
  · exact Nat.le_refl _
  · exact Nat.le_refl _
  · exact Nat.zero_le _

end Record

/-! ### Tables -/

theorem fault_of_mem_recordsFrom {lines : List (List Char)} (hlines : ∀ l ∈ lines, IsLine l)
    {r : Record} (hr : r.phase ≠ .lineEnd) {f : Fault} (h : .error f ∈ recordsFrom r lines) :
    f.kind = .other ∧ fieldLimit < r.size + lines.flatten.length := by
  induction lines generalizing r with
  | nil =>
    unfold recordsFrom at h
    split at h <;> simp at h
  | cons line rest ih =>
    obtain ⟨hline, hrest⟩ := forall_mem_cons.mp hlines
    rw [flatten_cons, length_append]
    unfold recordsFrom at h
    rcases Record.foldlM_feed_cases hline hr with ⟨read, hread, hsize⟩ | ⟨hread, hlong⟩
    · simp only [hread] at h
      have hend := read.endLine_size
      split at h
      · have hnew := ih hrest (r := {}) nofun (by simpa using h)
        exact ⟨hnew.1, by have := hnew.2; simp only [Nat.zero_add] at this; omega⟩
      · have hnew := ih hrest read.endLine_phase h
        exact ⟨hnew.1, by omega⟩
    · simp only [hread, mem_singleton] at h
      cases h
      exact ⟨rfl, by omega⟩

/-- The numbers of a file cannot be read because a field is not a number, or because the file is so
long that a field can be longer than it may be. -/
theorem readNumbers_fault {cs : List Char} {f : Fault} (h : readNumbers (fileLines cs) = .error f) :
    f.kind = .badValue ∨ (f.kind = .other ∧ fieldLimit < cs.length) := by
  unfold readNumbers at h
  rcases Outcome.bind_eq_error.mp h with h | ⟨rows, -, h⟩
  · obtain ⟨record, hmem, h⟩ := Outcome.exists_of_mapM_eq_error h
    rcases Outcome.bind_eq_error.mp h with rfl | ⟨fields, -, h⟩
    · have hlines : ∀ l ∈ fileLines cs, IsLine l := fun l hl => isLine_of_mem_fileLines hl
      obtain ⟨hkind, hlong⟩ := fault_of_mem_recordsFrom hlines (r := {}) nofun hmem
      have hlen := length_flatten_fileLines cs
      simp only [Nat.zero_add] at hlong
      exact .inr ⟨hkind, by omega⟩
    · obtain ⟨field, -, h⟩ := Outcome.exists_of_mapM_eq_error h
      unfold fieldNumber at h
      split at h
      · cases h
      · cases h
        exact .inl rfl
  · cases h

end LabBench.Text
