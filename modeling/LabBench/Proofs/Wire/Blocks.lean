import Mathlib
import LabBench.Proofs.Frame
import LabBench.Proofs.Number.Numerals
import LabBench.Wire.Block
import LabBench.Wire.Packed
/-!
# Binary data on the line

Data that was put into a block is found again, also if something follows the block. A block that has lost
its end on the way is noticed, since it says at its start how long it is. All this holds for data of less
than a thousand million bytes: the number of digits of the length has to be a digit itself.

Apart from blocks, data is accepted whose length is written with a sign or with spaces. If the length is negative, the
data is cut at its end.

Numbers of two bytes are found again as well.

## Main results

* `decode_block`, `decode_eq_ok_iff`
-/

namespace LabBench

open List Nat

/-! ### Blocks -/

namespace Block

/-- The start of a block with some data of a length. -/
def header (length : Nat) : List Char :=
  '#' :: toDigits 10 (toDigits 10 length).length ++ toDigits 10 length

theorem encode_eq (data : List Char) : encode data = header data.length ++ data :=
  rfl

theorem getLast?_header (length : Nat) : ∃ c, (header length).getLast? = some c ∧ c.isDigit = true := by
  have hne : toDigits 10 length ≠ [] := toDigits_ne_nil
  obtain ⟨c, hc⟩ := Option.isSome_iff_exists.mp (getLast?_isSome.mpr hne)
  refine ⟨c, ?_, isDigit_of_mem_toDigits (by decide) (by decide) (mem_of_getLast? hc)⟩
  rw [header, getLast?_append, hc]
  rfl

/-- How many of the bytes after the length are taken. A negative length is a position before the data, and one before
the block is counted from its end. -/
def reach (digits rest : Nat) (length : ℤ) : Nat :=
  if 0 ≤ length then length.toNat
  else if 0 ≤ 2 + digits + length then 0 else (rest + (2 + digits + length)).toNat

variable {k : Char} {text cs : List Char} {count length : ℤ} {b data : List Char}

theorem decode_of_ne {b : List Char} (hk : k ≠ '0') (hb : b ≠ []) :
    decode ('#' :: k :: b) = decodeDefinite ('#' :: k :: b) k := by
  obtain ⟨c, rest, rfl⟩ := exists_cons_of_ne_nil hb
  simp only [decode, bne_self_eq_false, Bool.false_eq_true, if_false, beq_eq_false_iff_ne.mpr hk]

theorem ne_nil_of_readInt? (hlen : Number.readInt? (String.ofList text) = some length) : text ≠ [] := by
  rintro rfl
  have hempty : Number.readInt? (String.ofList []) = none := by decide
  cases hempty.symm.trans hlen

theorem decode_text (hk : k ≠ '0') (hcnt : Number.readInt? k.toString = some count)
    (htext : text.length = count.toNat) (hlen : Number.readInt? (String.ofList text) = some length) :
    decode ('#' :: k :: (text ++ cs)) =
      if length ≤ cs.length then .ok (cs.take (reach text.length cs.length length)) else refuse "Not enough data." := by
  have hne := ne_nil_of_readInt? hlen
  have hsize : ('#' :: k :: (text ++ cs)).length = 2 + text.length + cs.length := by
    simp only [length_cons, length_append]
    omega
  have htake : (('#' :: k :: (text ++ cs)).take (2 + text.length)).drop 2 = text := by
    rw [add_comm 2]
    simp
  rw [decode_of_ne hk (append_ne_nil_of_left_ne_nil hne cs), decodeDefinite, hcnt]
  simp only [← htext]
  rw [if_neg (by omega), htake, hlen]
  simp only [gt_iff_lt, hsize]
  by_cases hle : length ≤ cs.length
  · have hpos : position (2 + text.length + cs.length) ((2 + text.length : ℕ) + length) - (2 + text.length) =
        reach text.length cs.length length := by
      unfold position reach
      split <;> split <;> [skip; split; skip; split] <;> omega
    rw [if_neg (by omega), if_pos hle, slice, hsize, drop_take, hpos, add_comm 2]
    simp
  · rw [if_pos (by omega), if_neg hle]

theorem ofDigitChars_singleton_ne_zero (hk : k.isDigit = true) (hne : k ≠ '0') : ofDigitChars 10 [k] 0 ≠ 0 := by
  have hval : ofDigitChars 10 [k] 0 = k.toNat - 48 := by simp [ofDigitChars]
  have hlow : 48 ≤ k.toNat := (Char.isDigit_iff_toNat.mp hk).1
  intro hzero
  exact hne (Char.toNat_inj.mp (show k.toNat = 48 by omega))

theorem decode_digits {digits : List Char} (hk : k.isDigit = true) (hne : k ≠ '0')
    (hcnt : digits.length = ofDigitChars 10 [k] 0) (hdigs : ∀ c ∈ digits, c.isDigit = true) :
    decode ('#' :: k :: (digits ++ cs)) = if ofDigitChars 10 digits 0 ≤ cs.length then
      .ok (cs.take (ofDigitChars 10 digits 0)) else refuse "Not enough data." := by
  have hread := Number.readInt?_of_isDigit (show ∀ c ∈ [k], c.isDigit = true by simpa using hk) (cons_ne_nil _ _)
  have hpos : digits ≠ [] := by
    rintro rfl
    exact ofDigitChars_singleton_ne_zero hk hne hcnt.symm
  rw [decode_text hne hread hcnt (Number.readInt?_of_isDigit hdigs hpos)]
  simp only [cast_le, reach, if_pos (Int.natCast_nonneg _), Int.toNat_natCast]

/-- A block that is whole contains its data, whatever follows it, and a block that is not is refused. -/
theorem decode_header {length : Nat} (hlen : length < 10 ^ 9) (cs : List Char) : decode (header length ++ cs) =
      if length ≤ cs.length then .ok (cs.take length) else refuse "Not enough data." := by
  have hcnt : (toDigits 10 length).length < 10 :=
    lt_succ_of_le ((length_toDigits_le_iff (by decide) (by decide)).mpr hlen)
  have hdig : ∀ k < 10, 0 < k → k.digitChar.isDigit = true ∧ k.digitChar ≠ '0' ∧
      ofDigitChars 10 [k.digitChar] 0 = k := by decide
  obtain ⟨hk, hne, hval⟩ := hdig _ hcnt length_toDigits_pos
  have hdec := @decode_digits _ cs _ hk hne hval.symm fun c hc => isDigit_of_mem_toDigits (by decide) (by decide) hc
  rw [ofDigitChars_ten_toDigits] at hdec
  rw [header, toDigits_of_lt_base hcnt]
  exact hdec

theorem decode_encode_append {data : List Char} (hlen : data.length < 10 ^ 9) (rest : List Char) :
    decode (encode data ++ rest) = .ok data := by
  rw [encode_eq, append_assoc, decode_header hlen, if_pos (by rw [length_append]; exact le_add_right _ _), take_left]

/-- A block of indefinite length contains everything up to the line feed that ends it, also if there are
line feeds before. -/
theorem decode_indefinite (data : List Char) : decode ('#' :: '0' :: data ++ ['\n']) = .ok data := by
  obtain ⟨c, rest, hcons⟩ := exists_cons_of_ne_nil (concat_ne_nil '\n' data)
  have hlast : (c :: rest).getLastD c = '\n' := by
    rw [← hcons, getLastD_concat]
  have hdata : (c :: rest).dropLast = data := by
    rw [← hcons, dropLast_concat]
  have htext : '#' :: '0' :: data ++ ['\n'] = '#' :: '0' :: c :: rest := by
    rw [cons_append, cons_append, hcons]
  rw [htext]
  simp only [decode, hlast, hdata, bne_self_eq_false, beq_self_eq_true, Bool.false_eq_true, if_false, if_true]

/-- Both kinds of blocks are read back. A block of definite length says itself where it ends, so that anything
may follow it; one of indefinite length ends with the text. -/
theorem decode_block (data rest : List Char) : (data.length < 10 ^ 9 → decode (encode data ++ rest) = .ok data) ∧
      decode ('#' :: '0' :: data ++ ['\n']) = .ok data :=
  ⟨fun hlength => decode_encode_append hlength rest, decode_indefinite data⟩

/-- Data that looks like a block itself, with line feeds in it and after it. -/
theorem decode_block_nested : "#15\n#0\n012".toList.length < 10 ^ 9 ∧
      decode (encode "#15\n#0\n012".toList ++ ['\n', '#']) = .ok "#15\n#0\n012".toList ∧
      decode ('#' :: '0' :: "#15\n#0\n012".toList ++ ['\n']) = .ok "#15\n#0\n012".toList :=
  have hlength : "#15\n#0\n012".toList.length < 10 ^ 9 := by decide
  ⟨hlength, (decode_block _ _).1 hlength, (decode_block _ []).2⟩

/-! ### What is accepted -/

/-- Blocks as they are meant to be, with their data. -/
inductive IsBlock : List Char → List Char → Prop
  | indefinite (data : List Char) : IsBlock ('#' :: '0' :: data ++ ['\n']) data
  | definite {k : Char} {digits rest : List Char} (hk : k.isDigit = true) (hne : k ≠ '0')
      (hcount : digits.length = ofDigitChars 10 [k] 0) (hdigits : ∀ c ∈ digits, c.isDigit = true)
      (hle : ofDigitChars 10 digits 0 ≤ rest.length) :
      IsBlock ('#' :: k :: (digits ++ rest)) (rest.take (ofDigitChars 10 digits 0))

/-- Texts that are taken for blocks because their length can be read as a number, although it does not consist of
digits: there may be a sign, white space around the digits or underscores between them. -/
inductive IsLax : List Char → List Char → Prop
  | intro {k : Char} {text rest : List Char} {count length : ℤ} (hk : k ≠ '0')
      (hodd : ¬∀ c ∈ k :: text, c.isDigit = true) (hcount : Number.readInt? k.toString = some count)
      (htext : text.length = count.toNat) (hlength : Number.readInt? (String.ofList text) = some length)
      (hle : length ≤ rest.length) :
      IsLax ('#' :: k :: (text ++ rest)) (rest.take (reach text.length rest.length length))

theorem IsBlock.decode_eq (h : IsBlock b data) : decode b = .ok data := by
  cases h with
  | indefinite data => exact decode_indefinite data
  | definite hk hne hcnt hdigs hle => rw [decode_digits hk hne hcnt hdigs, if_pos hle]

theorem IsLax.decode_eq (h : IsLax b data) : decode b = .ok data := by
  cases h with
  | intro hk _ hcnt htext hlen hle => rw [decode_text hk hcnt htext hlen, if_pos hle]

theorem exists_of_decodeDefinite (h : decodeDefinite ('#' :: k :: b) k = .ok data) :
    ∃ text rest count length, b = text ++ rest ∧ Number.readInt? k.toString = some count ∧
      text.length = count.toNat ∧ Number.readInt? (String.ofList text) = some length := by
  rw [decodeDefinite] at h
  split at h
  · cases h
  · rename_i count hcnt
    simp only at h
    split at h
    · cases h
    · rename_i hlong
      split at h
      · cases h
      · rename_i length hlen
        rw [add_comm 2] at hlen
        refine ⟨b.take count.toNat, b.drop count.toNat, count, length, (take_append_drop _ b).symm, hcnt, ?_,
          by simpa using hlen⟩
        simp only [length_cons] at hlong
        rw [length_take]
        omega

theorem exists_of_decode (h : decode b = .ok data) :
    b = '#' :: '0' :: data ++ ['\n'] ∨ ∃ k text rest count length, b = '#' :: k :: (text ++ rest) ∧ k ≠ '0' ∧
      Number.readInt? k.toString = some count ∧ text.length = count.toNat ∧
      Number.readInt? (String.ofList text) = some length := by
  unfold decode at h
  dsimp only at h
  split at h
  · rename_i first k c rest
    split at h
    · cases h
    · rename_i hfst
      obtain rfl : first = '#' := by simpa using hfst
      split at h
      · rename_i hk
        obtain rfl : k = '0' := by simpa using hk
        split at h
        · cases h
        · rename_i hlast
          have hlast : (c :: rest).getLast (cons_ne_nil c rest) = '\n' := by
            simpa [getLast?_eq_some_getLast (cons_ne_nil c rest)] using hlast
          cases h
          refine .inl ?_
          rw [← hlast]
          simp only [cons_append, dropLast_concat_getLast]
      · rename_i hk
        obtain ⟨text, rest', count, length, hb, hrest⟩ := exists_of_decodeDefinite h
        exact .inr ⟨k, text, rest', count, length, by rw [hb], by simpa using hk, hrest⟩
  · cases h

theorem exists_message_of_decode {b : List Char} {e : Fault} (h : decode b = .error e) :
    ∃ message, e = .because .block message := by
  unfold decode decodeDefinite refuse at h
  dsimp only at h
  repeat' split at h
  all_goals cases h
  all_goals exact ⟨_, rfl⟩

/-- All blocks are read. Apart from them only those texts are that have something else but digits in their length, and
everything else is refused as no block. -/
theorem decode_eq_ok_iff (b data : List Char) : (decode b = .ok data ↔ IsBlock b data ∨ IsLax b data) ∧
    ∀ e, decode b = .error e → ∃ message, e = .because .block message := by
  refine ⟨⟨fun h => ?_, fun h => h.elim IsBlock.decode_eq IsLax.decode_eq⟩, fun e => exists_message_of_decode⟩
  rcases exists_of_decode h with rfl | ⟨k, text, rest, count, length, rfl, hk, hcount, htext, hlength⟩
  · exact .inl (.indefinite data)
  · by_cases hdigits : ∀ c ∈ k :: text, c.isDigit = true
    · rw [forall_mem_cons] at hdigits
      have hread := Number.readInt?_of_isDigit (show ∀ c ∈ [k], c.isDigit = true by simpa using hdigits.1)
        (cons_ne_nil _ _)
      obtain rfl : (ofDigitChars 10 [k] 0 : ℤ) = count := Option.some.inj (hread.symm.trans hcount)
      rw [decode_digits hdigits.1 hk htext hdigits.2] at h
      split at h
      · rename_i hle
        cases h
        exact .inl (.definite hdigits.1 hk htext hdigits.2 hle)
      · cases h
    · rw [decode_text hk hcount htext hlength] at h
      split at h
      · rename_i hle
        cases h
        exact .inr (.intro hk hdigits hcount htext hlength hle)
      · cases h

/-- A negative length that reaches beyond the start of the block is counted from its end. -/
theorem decode_eq_ok_iff_negative : decode "#2-9abcdefghijk".toList = .ok "abcdef".toList ∧
    ∃ message, decode "#2x9abc".toList = .error (.because .block message) := by
  refine ⟨(decode_eq_ok_iff _ _).1.mpr (.inr ?_), ?_⟩
  · exact @IsLax.intro '2' ['-', '9'] "abcdefghijk".toList 2 (-9) (by decide)
      (fun h => absurd (h '-' (by simp)) (by decide)) rfl rfl rfl (by decide)
  · have herror : (decode "#2x9abc".toList).isOk = false := by decide
    cases h : decode "#2x9abc".toList with
    | ok data => rw [h] at herror; cases herror
    | error e =>
      obtain ⟨message, rfl⟩ := (decode_eq_ok_iff "#2x9abc".toList []).2 e h
      exact ⟨message, rfl⟩

end Block

/-! ### Numbers in two bytes -/

namespace Packed

/-- The bytes of numbers, two for each. -/
def bytesOf (ns : List Int) : List Char :=
  ns.flatMap fun n => [byte n.toNat, byte (n.toNat / 256)]

theorem toNat_byte (n : Nat) : (byte n).toNat = n % 256 := by
  have hvalid : (n % 256).isValidChar := Or.inl (by omega)
  rw [byte, Char.ofNat, dif_pos hvalid]
  rfl

theorem length_bytesOf (ns : List Int) : (bytesOf ns).length = 2 * ns.length := by
  induction ns with
  | nil => rfl
  | cons n ns ih =>
    rw [bytesOf, flatMap_cons, length_append, ← bytesOf, ih, length_cons]
    simp only [length_cons, length_nil]
    omega

theorem getLast?_bytesOf (ns : List Int) : (bytesOf ns).getLast? = ns.getLast?.map fun n => byte (n.toNat / 256) := by
  induction ns with
  | nil => rfl
  | cons n ns ih =>
    rw [bytesOf, flatMap_cons, getLast?_append, ← bytesOf, ih, getLast?_cons (l := ns)]
    cases ns.getLast? <;> rfl

theorem words_eq_ok {ns : List Int} (h : ∀ n ∈ ns, 0 ≤ n ∧ n < 65536) : words ns = .ok (bytesOf ns) := by
  have hmap : ns.mapM word = .ok (ns.map fun n => [byte n.toNat, byte (n.toNat / 256)]) := by
    induction ns with
    | nil => rfl
    | cons n ns ih =>
      rw [forall_mem_cons] at h
      have hword : word n = .ok [byte n.toNat, byte (n.toNat / 256)] := if_pos (by simp [h.1.1, h.1.2])
      rw [mapM_cons, hword, ih h.2]
      rfl
  rw [words, hmap]
  rfl

theorem readWords_bytesOf {ns : List Int} (h : ∀ n ∈ ns, 0 ≤ n ∧ n < 65536) :
    readWords (bytesOf ns) = .ok (ns.map Int.toNat) := by
  induction ns with
  | nil => rfl
  | cons n ns ih =>
    rw [forall_mem_cons] at h
    have hval : (byte n.toNat).toNat + 256 * (byte (n.toNat / 256)).toNat = n.toNat := by
      rw [toNat_byte, toNat_byte]
      omega
    have hrest := ih h.2
    rw [bytesOf] at hrest
    rw [bytesOf, flatMap_cons, cons_append, cons_append, nil_append, readWords, hrest, hval]
    rfl

end Packed

end LabBench
