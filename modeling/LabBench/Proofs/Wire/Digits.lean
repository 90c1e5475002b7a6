import LabBench.Wire.Hex
import Mathlib.Data.List.Basic
import Mathlib.Data.Nat.Digits.Defs
import Mathlib.Tactic.Common
/-!
# Hexadecimal digits

Bytes are written down in hexadecimal digits and read back. Written in groups, which are separated by spaces, they are
the same bytes, since everything but digits is ignored. Conversely, only the digits of a text in pairs are found again.
-/

namespace LabBench.Hex

open Text List
open String hiding intercalate_cons_cons length_map

/-! ### Digits of numbers -/

theorem digit?_digitChar {k : Nat} (h : k < 16) : digit? k.digitChar = some k := by
  have hall : ∀ k < 16, digit? k.digitChar = some k := by decide
  exact hall k h

/-- The values of so many digits of a number, of which the last one comes last. -/
def nibbles : Nat → Nat → List Nat
  | 0, _ => []
  | width + 1, n => nibbles width (n / 16) ++ [n % 16]

theorem length_nibbles (width n : Nat) : (nibbles width n).length = width := by
  induction width generalizing n with
  | zero => rfl
  | succ width ih => simp [nibbles, ih]

theorem toList_hex_succ (width n : Nat) :
    (hex (width + 2) n).toList = (hex (width + 1) (n / 16)).toList ++ [(n % 16).digitChar] := by
  simp only [hex, toList_ofList]
  rw [Nat.toDigits_eq_if (n := n) (by omega)]
  split
  · rename_i hlt
    rw [Nat.div_eq_of_lt hlt, Nat.mod_eq_of_lt hlt, Nat.toDigits_zero]
    simp [replicate_succ']
  · simp

variable {n : Nat} {data more : List Char}

theorem toList_hex (width : Nat) (h : n < 16 ^ (width + 1)) :
    (hex (width + 1) n).toList = (nibbles (width + 1) n).map Nat.digitChar := by
  induction width generalizing n with
  | zero =>
    have hlt : n < 16 := by simpa using h
    simp [hex, Nat.toDigits_of_lt_base hlt, nibbles, Nat.mod_eq_of_lt hlt]
  | succ width ih =>
    rw [toList_hex_succ, ih (by rw [Nat.pow_succ] at h; omega)]
    simp [nibbles]

theorem lt_of_mem_nibbles {width k : Nat} (h : k ∈ nibbles width n) : k < 16 := by
  induction width generalizing n with
  | zero => cases h
  | succ width ih =>
    rcases mem_append.mp h with h | h
    · exact ih h
    · rw [mem_singleton.mp h]
      exact Nat.mod_lt n (by omega)

theorem filterMap_digitChar (ks : List Nat) (h : ∀ k ∈ ks, k < 16) : (ks.map Nat.digitChar).filterMap digit? = ks := by
  induction ks with
  | nil => rfl
  | cons k ks ih =>
    rw [map_cons, filterMap_cons_some (digit?_digitChar (h k mem_cons_self)), ih fun j hj => h j (mem_cons_of_mem k hj)]

theorem filterMap_hex (width : Nat) (h : n < 16 ^ (width + 1)) :
    (hex (width + 1) n).toList.filterMap digit? = nibbles (width + 1) n := by
  rw [toList_hex width h, filterMap_digitChar _ fun k => lt_of_mem_nibbles]

/-! ### Bytes -/

def IsBytes (data : List Char) : Prop :=
  ∀ c ∈ data, c.toNat < 256

theorem IsBytes.append (h : IsBytes data) (h' : IsBytes more) : IsBytes (data ++ more) := by
  intro c hc
  rcases mem_append.mp hc with hc | hc
  · exact h c hc
  · exact h' c hc

theorem toList_hex_byte (h : n < 256) : (hex 2 n).toList = [(n / 16).digitChar, (n % 16).digitChar] := by
  rw [toList_hex 1 (by omega)]
  simp [nibbles, Nat.mod_eq_of_lt (show n / 16 < 16 by omega)]

theorem bytes_append {ks js : List Nat} (h : ks.length % 2 = 0) : bytes (ks ++ js) = bytes ks ++ bytes js := by
  induction ks using bytes.induct with
  | case1 a b rest ih =>
    simp only [cons_append, bytes, ih (by simp only [length_cons] at h; omega)]
  | case2 a => simp at h
  | case3 => rfl

theorem length_bytes (ks : List Nat) : (bytes ks).length = (ks.length + 1) / 2 := by
  induction ks using bytes.induct with
  | case1 a b rest ih =>
    simp only [bytes, length_cons, ih]
    omega
  | case2 a | case3 => simp [bytes]

theorem encode_append {text : List Char} (h : (text.filterMap digit?).length % 2 = 0) :
    encode (text ++ more) = encode text ++ encode more := by
  unfold encode
  rw [filterMap_append, bytes_append h]

/-- Both digits of all bytes. -/
def halves (data : List Char) : List Nat :=
  data.flatMap fun c => [c.toNat / 16, c.toNat % 16]

theorem bytes_halves (data : List Char) : bytes (halves data) = data := by
  induction data with
  | nil => rfl
  | cons c data ih =>
    have hc : 16 * (c.toNat / 16) + c.toNat % 16 = c.toNat := Nat.div_add_mod _ 16
    have hcons : halves (c :: data) = c.toNat / 16 :: c.toNat % 16 :: halves data := rfl
    rw [hcons, bytes, ih, hc, Char.ofNat_toNat]

theorem filterMap_digits (h : IsBytes data) : ((digits data).flatMap toList).filterMap digit? = halves data := by
  induction data with
  | nil => rfl
  | cons c data ih =>
    have hc : (hex 2 c.toNat).toList.filterMap digit? = [c.toNat / 16, c.toNat % 16] := by
      rw [toList_hex_byte (h c mem_cons_self)]
      have hlt := h c mem_cons_self
      exact filterMap_digitChar [c.toNat / 16, c.toNat % 16] (by simp; omega)
    have hcons : (digits (c :: data)).flatMap toList = (hex 2 c.toNat).toList ++ (digits data).flatMap toList := rfl
    rw [hcons, filterMap_append, hc, ih fun d hd => h d (mem_cons_of_mem c hd)]
    rfl

/-! ### Groups -/

section Groups

variable {α : Type} {size : Nat} {xs : List α}

@[simp]
theorem groups_nil : groups size ([] : List α) = [] := by
  rw [groups, dif_pos (.inr rfl)]

theorem groups_of_ne_nil (hsize : 0 < size) (h : xs ≠ []) :
    groups size xs = xs.take size :: groups size (xs.drop size) := by
  rw [groups, dif_neg (by simp [h]; omega)]

theorem groups_append {ys : List α} (hsize : 0 < size) (h : size ∣ xs.length) :
    groups size (xs ++ ys) = groups size xs ++ groups size ys := by
  obtain ⟨k, hk⟩ := h
  induction k generalizing xs with
  | zero =>
    rw [eq_nil_of_length_eq_zero hk, groups_nil]
    rfl
  | succ k ih =>
    have hlen : xs.length = size * k + size := hk
    have hxs : xs ≠ [] := by
      rintro rfl
      simp at hlen
      omega
    have hdrop : (xs.drop size).length = size * k := by
      rw [length_drop]
      omega
    rw [groups_of_ne_nil hsize hxs, groups_of_ne_nil hsize (append_ne_nil_of_left_ne_nil hxs ys),
      take_append_of_le_length (by omega), drop_append_of_le_length (by omega), ih hdrop]
    rfl

theorem flatten_groups (hsize : 0 < size) (xs : List α) : (groups size xs).flatten = xs := by
  fun_induction groups size xs with
  | case1 xs h =>
    rcases h with h | rfl
    · omega
    · rfl
  | case2 xs h ih => rw [flatten_cons, ih, take_append_drop]

theorem groups_ne_nil (hsize : 0 < size) (h : xs ≠ []) : groups size xs ≠ [] := by
  rw [groups_of_ne_nil hsize h]
  exact cons_ne_nil _ _

end Groups

theorem filterMap_intercalate {sep : List Char} (h : sep.filterMap digit? = []) (texts : List (List Char)) :
    (sep.intercalate texts).filterMap digit? = texts.flatten.filterMap digit? := by
  induction texts with
  | nil => rfl
  | cons text texts ih =>
    cases texts with
    | nil => simp
    | cons more texts =>
      rw [intercalate_cons_cons, flatten_cons, filterMap_append, filterMap_append, filterMap_append, ih, h, append_nil]

theorem encode_grouped {size : Nat} (hsize : 0 < size) (h : IsBytes data) :
    encode (grouped size data).toList = data := by
  have hflatten : (((groups size (digits data)).map join).map toList).flatten = (digits data).flatMap toList := by
    conv_rhs => rw [← flatten_groups hsize (digits data)]
    generalize groups size (digits data) = parts
    induction parts with
    | nil => rfl
    | cons part parts ih => simpa [toList_join] using ih
  unfold encode grouped
  rw [toList_intercalate, filterMap_intercalate (by decide), hflatten, filterMap_digits h, bytes_halves]

theorem grouped_append {size : Nat} (hsize : 0 < size) (h : size ∣ data.length)
    (hdata : data ≠ []) (hmore : more ≠ []) :
    grouped size (data ++ more) = grouped size data ++ " " ++ grouped size more := by
  have hdigs (d : List Char) (hd : d ≠ []) : (groups size (digits d)).map join ≠ [] := by
    have hne : digits d ≠ [] := mt map_eq_nil_iff.mp hd
    simpa using groups_ne_nil hsize hne
  have hspl : digits (data ++ more) = digits data ++ digits more := map_append
  have hlen : size ∣ (digits data).length := by rwa [digits, length_map]
  unfold grouped
  rw [hspl, groups_append hsize hlen, map_append, intercalate_append_of_ne_nil (hdigs data hdata) (hdigs more hmore)]

/-! ### Single bytes -/

theorem toNat_ofNat_byte (h : n < 256) : (Char.ofNat n).toNat = n := by
  have hvalid : n.isValidChar := .inl (by omega)
  rw [Char.ofNat, dif_pos hvalid]
  rfl

theorem isBytes_ofNat {ns : List Nat} (h : ∀ n ∈ ns, n < 256) : IsBytes (ns.map Char.ofNat) := by
  intro c hc
  obtain ⟨n, hn, rfl⟩ := mem_map.mp hc
  rw [toNat_ofNat_byte (h n hn)]
  exact h n hn

theorem encode_hex_byte (h : n < 256) : encode (hex 2 n).toList = [Char.ofNat n] := by
  have hn : 16 * (n / 16 % 16) + n % 16 = n := by omega
  rw [encode, filterMap_hex 1 (by omega)]
  simp [nibbles, bytes, hn]

theorem grouped_pair (a b : Char) : grouped 2 [a, b] = hex 2 a.toNat ++ hex 2 b.toNat := by
  simp [grouped, digits, groups_of_ne_nil]

/-! ### Round trips -/

theorem digit?_eq_some {c : Char} {k : Nat} (h : digit? c = some k) : k < 16 ∧ c.toLower = k.digitChar := by
  have hall : ∀ n < 128, ∀ k, digit? (Char.ofNat n) = some k → k < 16 ∧ (Char.ofNat n).toLower = k.digitChar := by
    decide
  have hc : c.toNat < 128 := by
    have hle {d : Char} (hd : c ≤ d) (hlt : d.toNat < 128) : c.toNat < 128 := Nat.lt_of_le_of_lt hd hlt
    unfold digit? at h
    split at h <;> [skip; split at h <;> [skip; split at h]]
    case isFalse.isFalse.isFalse => cases h
    all_goals rename_i hrange; exact hle (Bool.and_eq_true_iff.mp hrange |>.2 |> of_decide_eq_true) (by decide)
  have hspec := hall c.toNat hc k
  rw [Char.ofNat_toNat] at hspec
  exact hspec h

/-- The hexadecimal digits of a text, in lower case. -/
def lowered (text : List Char) : List Char :=
  (text.filter fun c => (digit? c).isSome).map Char.toLower

theorem lowered_eq (text : List Char) : lowered text = (text.filterMap digit?).map Nat.digitChar := by
  induction text with
  | nil => rfl
  | cons c text ih =>
    cases hc : digit? c with
    | none => rw [lowered, filter_cons_of_neg (by simp [hc]), ← lowered, ih, filterMap_cons_none hc]
    | some k =>
      rw [lowered, filter_cons_of_pos (by simp [hc]), map_cons, ← lowered, ih, filterMap_cons_some hc,
        map_cons, (digit?_eq_some hc).2]

theorem lt_of_mem_filterMap {text : List Char} {k : Nat} (h : k ∈ text.filterMap digit?) : k < 16 := by
  obtain ⟨c, -, hc⟩ := mem_filterMap.mp h
  exact (digit?_eq_some hc).1

theorem halves_bytes {ks : List Nat} (h : ∀ k ∈ ks, k < 16) :
    IsBytes (bytes ks) ∧ (ks.length % 2 = 0 → halves (bytes ks) = ks) := by
  induction ks using bytes.induct with
  | case1 a b rest ih =>
    simp only [forall_mem_cons] at h
    obtain ⟨hbytes, hhalves⟩ := ih h.2.2
    have hval : (Char.ofNat (16 * a + b)).toNat = 16 * a + b := toNat_ofNat_byte (by omega)
    refine ⟨forall_mem_cons.mpr ⟨by omega, hbytes⟩, fun heven => ?_⟩
    have hrest := hhalves (by simp only [length_cons] at heven; omega)
    rw [halves] at hrest
    rw [bytes, halves, flatMap_cons, hval, hrest]
    simp only [cons_append, nil_append, cons.injEq, and_true]
    omega
  | case2 a =>
    have hval : (Char.ofNat a).toNat = a := toNat_ofNat_byte (by have := h a mem_cons_self; omega)
    have ha := h a mem_cons_self
    exact ⟨forall_mem_singleton.mpr (by omega), nofun⟩
  | case3 => exact ⟨nofun, fun _ => rfl⟩

theorem map_join_groups : ∀ data, IsBytes data →
    (groups 2 (digits data)).map join = (groups 4 ((halves data).map Nat.digitChar)).map ofList
  | [], _ => by simp [digits, halves]
  | [a], h => by
    have hjoin : join [hex 2 a.toNat] = ofList [(a.toNat / 16).digitChar, (a.toNat % 16).digitChar] :=
      toList_inj.mp (by simp [toList_hex_byte (h a mem_cons_self)])
    simpa [digits, halves, groups_of_ne_nil] using hjoin
  | a :: b :: rest, h => by
    simp only [IsBytes, forall_mem_cons] at h
    have hjoin : join [hex 2 a.toNat, hex 2 b.toNat] = ofList [(a.toNat / 16).digitChar,
        (a.toNat % 16).digitChar, (b.toNat / 16).digitChar, (b.toNat % 16).digitChar] :=
      toList_inj.mp (by simp [toList_hex_byte h.1, toList_hex_byte h.2.1])
    rw [groups_of_ne_nil two_pos (by simp [digits]), groups_of_ne_nil four_pos (by simp [halves])]
    exact congrArg₂ cons hjoin (map_join_groups rest h.2.2)

theorem exists_decode (h : IsBytes data) {size : ℤ} (hsize : 1 ≤ size) (group : Bool) :
    ∃ text, decode data size group = .ok text ∧ encode text.toList = data := by
  cases group with
  | true =>
    refine ⟨_, ?_, encode_grouped (show 0 < size.toNat by omega) h⟩
    rw [decode, if_neg (by decide), if_neg (by simp; omega)]
  | false =>
    refine ⟨_, rfl, ?_⟩
    rw [encode, toList_join, filterMap_digits h, bytes_halves]

/-- Bytes are found again from their digits, in whatever groups these are written. A text of digits is read from the
left in pairs. It is found again if there is no digit left over, and otherwise another text with the same bytes. -/
theorem round_trips : (∀ data, IsBytes data → ∀ size : ℤ, 1 ≤ size → ∀ group,
      ∃ text, decode data size group = .ok text ∧ encode text.toList = data) ∧
    ∀ text : List Char, length text = ((lowered text).length + 1) / 2 ∧
      (∀ other, lowered other = lowered text → decode (encode other) = decode (encode text)) ∧
      ((lowered text).length % 2 = 0 →
        decode (encode text) = .ok (" ".intercalate ((groups 4 (lowered text)).map ofList))) ∧
      ∃ digits, decode (encode text) = .ok digits ∧ encode digits.toList = encode text := by
  refine ⟨fun data h size hsize => exists_decode h hsize, fun text => ?_⟩
  have hlowered := lowered_eq text
  have hhalves := halves_bytes fun k (hk : k ∈ text.filterMap digit?) => lt_of_mem_filterMap hk
  refine ⟨?_, fun other h => ?_, fun heven => ?_, exists_decode hhalves.1 (by decide) true⟩
  · rw [hlowered, length_map]
    exact length_bytes _
  · have hdigits : other.filterMap digit? = text.filterMap digit? := by
      have hchars := congrArg (filterMap digit?) ((lowered_eq other).symm.trans (h.trans hlowered))
      rwa [filterMap_digitChar _ fun k => lt_of_mem_filterMap, filterMap_digitChar _ fun k => lt_of_mem_filterMap]
        at hchars
    rw [encode, hdigits, ← encode]
  · rw [hlowered, length_map] at heven
    have hjoin := map_join_groups _ hhalves.1
    rw [hhalves.2 heven, ← hlowered] at hjoin
    exact congrArg (fun texts => Except.ok (" ".intercalate texts)) hjoin

/-- Digits in groups of two, and bytes in a group that is not filled. -/
theorem round_trips_pairs : decode (encode "AB-cd ef 12".toList) = .ok "abcd ef12" ∧
    ∃ text, decode "+\x10".toList 3 true = .ok text ∧ encode text.toList = "+\x10".toList := by
  refine ⟨((round_trips.2 _).2.2.1 (by decide)).trans ?_, round_trips.1 _ ?_ 3 (by decide) true⟩
  · decide +kernel
  · simp [IsBytes]

end LabBench.Hex
