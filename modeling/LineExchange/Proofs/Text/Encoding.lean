import LineExchange.Text.Utf8

/-!
# Encoding — what is encoded is decoded, and bytes below 128 stand for themselves

The decoder tells a byte string's first character from the ranges of its bytes, and the encoder
writes bytes in these ranges.  This file proves:

* `Utf8.head_encodeChar` — a string that begins with the encoding of a character begins with that
  character;
* `Utf8.decodeLossy_encode` — decoding what was encoded gives it back, with no replacement;
* `Utf8.mem_encode_ascii` and `Utf8.mem_of_decode` — a character below 128 is in a text exactly
  where its byte is in the encoding.

Comparisons of bytes are first turned into comparisons of numbers (`width_eq`, `isTail_iff`,
`admits_iff`), which `omega` decides.
-/

namespace LineExchange
namespace Utf8

variable {a b : UInt8} {bs rest : Bytes} {c : Char} {cs : List Char}

/-! ## The ranges as numbers -/

theorem width_eq (a : UInt8) :
    width a =
      if a.toNat < 128 then 1
      else if a.toNat < 194 then 0
      else if a.toNat < 224 then 2
      else if a.toNat < 240 then 3
      else if a.toNat < 245 then 4
      else 0 := by
  simp only [width, UInt8.lt_iff_toNat_lt]
  rfl

theorem isTail_iff : isTail b = true ↔ 128 ≤ b.toNat ∧ b.toNat < 192 := by
  simp only [isTail, Bool.and_eq_true, decide_eq_true_eq, UInt8.le_iff_toNat_le,
    UInt8.lt_iff_toNat_lt]
  rfl

theorem admits_iff :
    admits a b = true ↔ (128 ≤ b.toNat ∧ b.toNat < 192) ∧ (a.toNat = 224 → 160 ≤ b.toNat) ∧
      (a.toNat = 237 → b.toNat < 160) ∧ (a.toNat = 240 → 144 ≤ b.toNat) ∧
      (a.toNat = 244 → b.toNat < 144) := by
  have byte (n : UInt8) : (a != n) = true ↔ a.toNat ≠ n.toNat := by
    simp [UInt8.toNat_inj]
  simp only [admits, Bool.and_eq_true, Bool.or_eq_true, isTail_iff, byte, decide_eq_true_eq,
    UInt8.le_iff_toNat_le, UInt8.lt_iff_toNat_lt, and_assoc]
  simp only [UInt8.toNat_ofNat]
  omega

/-! ## The first character, by the number of its bytes -/

theorem head_one (first : a.toNat < 128) :
    head (a :: rest) = .scalar (Char.ofNat a.toNat) rest := by
  have one : width a = 1 := by
    rw [width_eq, if_pos first]
  simp only [head, one]

theorem head_two (first : 194 ≤ a.toNat ∧ a.toNat < 224) (second : 128 ≤ b.toNat ∧ b.toNat < 192) :
    head (a :: b :: rest) = .scalar (Char.ofNat (a.toNat % 32 * 64 + b.toNat % 64)) rest := by
  have two : width a = 2 := by
    rw [width_eq, if_neg (by omega), if_neg (by omega), if_pos first.2]
  simp only [head, two, isTail_iff.2 second, if_true, tailBits]

theorem head_three {c : UInt8} (first : 224 ≤ a.toNat ∧ a.toNat < 240) (second : admits a b = true)
    (third : 128 ≤ c.toNat ∧ c.toNat < 192) :
    head (a :: b :: c :: rest) =
      .scalar (Char.ofNat (a.toNat % 16 * 4096 + b.toNat % 64 * 64 + c.toNat % 64)) rest := by
  have three : width a = 3 := by
    rw [width_eq, if_neg (by omega), if_neg (by omega), if_neg (by omega), if_pos first.2]
  simp only [head, three, second, isTail_iff.2 third, if_true, tailBits]

theorem head_four {c d : UInt8} (first : 240 ≤ a.toNat ∧ a.toNat < 245)
    (second : admits a b = true) (third : 128 ≤ c.toNat ∧ c.toNat < 192)
    (fourth : 128 ≤ d.toNat ∧ d.toNat < 192) :
    head (a :: b :: c :: d :: rest) =
      .scalar
        (Char.ofNat (a.toNat % 8 * 262144 + b.toNat % 64 * 4096 + c.toNat % 64 * 64 + d.toNat % 64))
        rest := by
  have four : width a = 4 := by
    rw [width_eq, if_neg (by omega), if_neg (by omega), if_neg (by omega), if_neg (by omega),
      if_pos first.2]
  rw [head, four]
  simp only [second, isTail_iff.2 third, isTail_iff.2 fourth, if_true]
  rfl

/-! ## What is encoded is decoded -/

/-- A character is no surrogate, and no number above the last code point. -/
theorem toNat_range (c : Char) : c.toNat < 55296 ∨ 57343 < c.toNat ∧ c.toNat < 1114112 :=
  c.valid

/-- A string that begins with the encoding of a character begins with that character. -/
theorem head_encodeChar (c : Char) (rest : Bytes) :
    head (String.utf8EncodeChar c ++ rest) = .scalar c rest := by
  have range := toNat_range c
  have whole : Char.ofNat c.toNat = c := Char.ofNat_toNat c
  have number : c.val.toNat = c.toNat := rfl
  simp only [String.utf8EncodeChar, number]
  -- From here on it is arithmetic of the number of the character, one length at a time.
  generalize c.toNat = n at range whole
  have byte (k : Nat) (small : k < 256) : (UInt8.ofNat k).toNat = k :=
    UInt8.toNat_ofNat_of_lt' small
  have last := byte (n % 64 + 128) (by omega)
  have middle := byte (n / 64 % 64 + 128) (by omega)
  split
  · have only := byte n (by omega)
    rw [List.singleton_append, head_one (by omega), only, whole]
  split
  · have first := byte (n / 64 % 32 + 192) (by omega)
    have value : (n / 64 % 32 + 192) % 32 * 64 + (n % 64 + 128) % 64 = n := by omega
    rw [List.cons_append, List.singleton_append, head_two (by omega) (by omega), first, last, value,
      whole]
  split
  · have first := byte (n / 4096 % 16 + 224) (by omega)
    have fits : admits (.ofNat (n / 4096 % 16 + 224)) (.ofNat (n / 64 % 64 + 128)) = true := by
      rw [admits_iff, first, middle]
      omega
    have value : (n / 4096 % 16 + 224) % 16 * 4096 + (n / 64 % 64 + 128) % 64 * 64 +
        (n % 64 + 128) % 64 = n := by omega
    rw [List.cons_append, List.cons_append, List.singleton_append,
      head_three (by omega) fits (by omega), first, middle, last, value, whole]
  · have first := byte (n / 262144 % 8 + 240) (by omega)
    have second := byte (n / 4096 % 64 + 128) (by omega)
    have fits : admits (.ofNat (n / 262144 % 8 + 240)) (.ofNat (n / 4096 % 64 + 128)) = true := by
      rw [admits_iff, first, second]
      omega
    have value : (n / 262144 % 8 + 240) % 8 * 262144 + (n / 4096 % 64 + 128) % 64 * 4096 +
        (n / 64 % 64 + 128) % 64 * 64 + (n % 64 + 128) % 64 = n := by omega
    rw [List.cons_append, List.cons_append, List.cons_append, List.singleton_append,
      head_four (by omega) fits (by omega) (by omega), first, second, middle, last, value, whole]

theorem decodeLossyFrom_encode (done cs : List Char) :
    decodeLossyFrom done (encode cs) = done.reverse ++ cs := by
  induction cs generalizing done with
  | nil =>
      rw [encode_nil, decodeLossyFrom]
      simp [head]
  | cons c cs ih =>
      rw [encode_cons, decodeLossyFrom]
      split
      · rename_i start
        cases (head_encodeChar c (encode cs)).symm.trans start
      · rename_i c' rest start
        cases (head_encodeChar c (encode cs)).symm.trans start
        simp [ih]
      · rename_i start
        cases (head_encodeChar c (encode cs)).symm.trans start
      · rename_i start
        cases (head_encodeChar c (encode cs)).symm.trans start

/-- Decoding what was encoded gives it back, with no replacement. -/
theorem decodeLossy_encode (cs : List Char) : decodeLossy (encode cs) = cs :=
  decodeLossyFrom_encode [] cs

/-! ## Bytes below 128 stand for themselves -/

/-- A byte below 128 encodes a character by itself. -/
theorem toNat_of_mem_encodeChar (mem : b ∈ String.utf8EncodeChar c) (small : b.toNat < 128) :
    c.toNat = b.toNat := by
  have range := toNat_range c
  have number : c.val.toNat = c.toNat := rfl
  simp only [String.utf8EncodeChar, number] at mem
  generalize c.toNat = n at range mem ⊢
  have byte (k : Nat) (small : k < 256) : (UInt8.ofNat k).toNat = k :=
    UInt8.toNat_ofNat_of_lt' small
  -- Every byte of a longer encoding is at least 128.
  repeat' split at mem
  all_goals simp only [List.mem_cons, List.not_mem_nil, or_false] at mem
  · rw [mem, byte n (by omega)]
  · rcases mem with rfl | rfl <;> rw [byte _ (by omega)] at small <;> omega
  · rcases mem with rfl | rfl | rfl <;> rw [byte _ (by omega)] at small <;> omega
  · rcases mem with rfl | rfl | rfl | rfl <;> rw [byte _ (by omega)] at small <;> omega

/-- A byte below 128 is in an encoding only where its character is in the text. -/
theorem mem_encode_ascii (mem : b ∈ encode cs) (small : b.toNat < 128) :
    Char.ofNat b.toNat ∈ cs := by
  rcases List.mem_flatMap.1 mem with ⟨c, inText, inChar⟩
  have same := toNat_of_mem_encodeChar inChar small
  rw [← same, Char.ofNat_toNat]
  exact inText

/-- The character with the number `n` has that number, or it is the null character. -/
theorem toNat_ofNat_of_pos {n : Nat} (pos : 0 < (Char.ofNat n).toNat) :
    (Char.ofNat n).toNat = n := by
  by_cases valid : n.isValidChar
  · rw [Char.ofNat, dif_pos valid]
    rfl
  · rw [Char.ofNat, dif_neg valid] at pos
    exact absurd pos (by decide)

/-- What follows the first character is a part of the whole. -/
theorem mem_of_head_scalar (start : head bs = .scalar c rest) (mem : b ∈ rest) : b ∈ bs := by
  unfold head at start
  repeat' split at start
  all_goals cases start
  all_goals simp [mem]

/-- What the width that a first byte announces says about that byte. -/
theorem range_of_width {n : Nat} (w : width a = n) :
    (n = 2 → 194 ≤ a.toNat ∧ a.toNat < 224) ∧ (n = 3 → 224 ≤ a.toNat ∧ a.toNat < 240) ∧
      (3 < n → 240 ≤ a.toNat ∧ a.toNat < 245) := by
  rw [width_eq] at w
  repeat' split at w
  all_goals omega

/-- A string begins with a character below 128, other than the null character, only if it begins
with its byte. -/
theorem eq_cons_of_head (start : head bs = .scalar c rest) (pos : 0 < c.toNat)
    (small : c.toNat < 128) : ∃ a, bs = a :: rest ∧ a.toNat = c.toNat := by
  unfold head at start
  repeat' split at start
  all_goals cases start
  all_goals rw [toNat_ofNat_of_pos pos] at small
  -- A longer encoding has a first byte that leaves more than seven bits.
  · rename_i a _ w
    exact ⟨a, rfl, (toNat_ofNat_of_pos pos).symm⟩
  · rename_i a _ w _ b tail
    have first := (range_of_width w).1 rfl
    omega
  · rename_i a _ w _ b second _ c tail
    have first := (range_of_width w).2.1 rfl
    have fits := admits_iff.1 second
    simp only [tailBits] at small
    omega
  · rename_i a _ w₀ w₁ w₂ w₃ _ b second _ c _ _ d tail
    have others : width a ≠ 0 ∧ width a ≠ 1 ∧ width a ≠ 2 ∧ width a ≠ 3 := ⟨w₀, w₁, w₂, w₃⟩
    have first := (range_of_width rfl).2.2 (show 3 < width a by omega)
    have fits := admits_iff.1 second
    simp only [tailBits] at small
    omega

theorem mem_of_decodeFrom {i : Nat} {done : List Char} (decoded : decodeFrom i done bs = .ok cs)
    (mem : c ∈ cs) (pos : 0 < c.toNat) (small : c.toNat < 128) :
    c ∈ done ∨ ∃ b ∈ bs, b.toNat = c.toNat := by
  -- By the recursion of the decoder, one character at a time.
  fun_induction decodeFrom i done bs with
  | case1 i done bs start =>
      cases decoded
      exact .inl (List.mem_reverse.1 mem)
  | case2 i done bs first rest start ih =>
      rcases ih decoded with early | ⟨b, later, same⟩
      · rcases List.mem_cons.1 early with rfl | before
        · rcases eq_cons_of_head start pos small with ⟨a, rfl, same⟩
          exact .inr ⟨a, List.mem_cons_self, same⟩
        · exact .inl before
      · exact .inr ⟨b, mem_of_head_scalar start later, same⟩
  | case3 => cases decoded
  | case4 => cases decoded

/-- A character below 128, other than the null character, is in what was decoded only where its
byte is. -/
theorem mem_of_decode (decoded : decode bs = .ok cs) (mem : c ∈ cs) (pos : 0 < c.toNat)
    (small : c.toNat < 128) : ∃ b ∈ bs, b.toNat = c.toNat := by
  rcases mem_of_decodeFrom decoded mem pos small with early | found
  · cases early
  · exact found

end Utf8
end LineExchange
