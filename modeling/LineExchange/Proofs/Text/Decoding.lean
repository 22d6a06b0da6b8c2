import LineExchange.Proofs.Text.Encoding

/-!
# Decoding — what is decoded is what was encoded

The decoder takes one character after another off a byte string.  This file proves that it takes
exactly the encoding of that character (`Utf8.eq_append_of_head`), and draws from this:

* `Utf8.IsText` — byte strings that are the encoding of some text;
* `Utf8.decode_eq_ok_iff` — a byte string is decoded to the text that it is the encoding of;
* `Utf8.exists_fault_iff` — there is a fault exactly where there is no text;
* `Utf8.fault_spec` — where a fault stands, and how wide it is.

No encoding is lost or accepted in another form: the ranges of the bytes leave out those that a
shorter encoding covers, and the surrogates.
-/

namespace LineExchange
namespace Utf8

variable {a b : UInt8} {bs rest : Bytes} {c : Char} {cs : List Char} {f : Fault}

/-! ## The encoding of a number, by the number of its bytes -/

theorem toNat_ofNat {n : Nat} (valid : n < 55296 ∨ 57343 < n ∧ n < 1114112) :
    (Char.ofNat n).val.toNat = n := by
  have isChar : n.isValidChar := valid
  rw [Char.ofNat, dif_pos isChar]
  rfl

/-- A byte is known by its number. -/
theorem ofNat_eq {n : Nat} (same : n = a.toNat) : UInt8.ofNat n = a := by
  rw [same, UInt8.ofNat_toNat]

theorem encodeChar_one (first : a.toNat < 128) :
    String.utf8EncodeChar (Char.ofNat a.toNat) = [a] := by
  have number := toNat_ofNat (n := a.toNat) (by omega)
  simp only [String.utf8EncodeChar, number]
  rw [if_pos (by omega), ofNat_eq rfl]

theorem encodeChar_two (first : 194 ≤ a.toNat ∧ a.toNat < 224)
    (second : 128 ≤ b.toNat ∧ b.toNat < 192) :
    String.utf8EncodeChar (Char.ofNat (a.toNat % 32 * 64 + b.toNat % 64)) = [a, b] := by
  have number := toNat_ofNat (n := a.toNat % 32 * 64 + b.toNat % 64) (by omega)
  simp only [String.utf8EncodeChar, number]
  rw [if_neg (by omega), if_pos (by omega), ofNat_eq (a := a) (by omega),
    ofNat_eq (a := b) (by omega)]

theorem encodeChar_three {c : UInt8} (first : 224 ≤ a.toNat ∧ a.toNat < 240)
    (second : admits a b = true) (third : 128 ≤ c.toNat ∧ c.toNat < 192) :
    String.utf8EncodeChar
        (Char.ofNat (a.toNat % 16 * 4096 + b.toNat % 64 * 64 + c.toNat % 64)) = [a, b, c] := by
  have fits := admits_iff.1 second
  have number := toNat_ofNat (n := a.toNat % 16 * 4096 + b.toNat % 64 * 64 + c.toNat % 64)
    (by omega)
  simp only [String.utf8EncodeChar, number]
  rw [if_neg (by omega), if_neg (by omega), if_pos (by omega), ofNat_eq (a := a) (by omega),
    ofNat_eq (a := b) (by omega), ofNat_eq (a := c) (by omega)]

theorem encodeChar_four {c d : UInt8} (first : 240 ≤ a.toNat ∧ a.toNat < 245)
    (second : admits a b = true) (third : 128 ≤ c.toNat ∧ c.toNat < 192)
    (fourth : 128 ≤ d.toNat ∧ d.toNat < 192) :
    String.utf8EncodeChar
        (Char.ofNat (a.toNat % 8 * 262144 + b.toNat % 64 * 4096 + c.toNat % 64 * 64 +
          d.toNat % 64)) = [a, b, c, d] := by
  have fits := admits_iff.1 second
  have number := toNat_ofNat
    (n := a.toNat % 8 * 262144 + b.toNat % 64 * 4096 + c.toNat % 64 * 64 + d.toNat % 64) (by omega)
  simp only [String.utf8EncodeChar, number]
  rw [if_neg (by omega), if_neg (by omega), if_neg (by omega), ofNat_eq (a := a) (by omega),
    ofNat_eq (a := b) (by omega), ofNat_eq (a := c) (by omega), ofNat_eq (a := d) (by omega)]

/-- A string that begins with a character begins with its encoding. -/
theorem eq_append_of_head (start : head bs = .scalar c rest) :
    bs = String.utf8EncodeChar c ++ rest := by
  -- The character has one of four lengths, and each of its bytes was tested on the way.
  unfold head at start
  repeat' split at start
  all_goals cases start
  · rename_i a _ w
    have first : a.toNat < 128 := by
      rw [width_eq] at w
      repeat' split at w
      all_goals omega
    rw [encodeChar_one first]
    rfl
  · rename_i a _ w _ b tail
    have first := (range_of_width w).1 rfl
    rw [tailBits, encodeChar_two first (isTail_iff.1 tail)]
    rfl
  · rename_i a _ w _ b second _ c tail
    have first := (range_of_width w).2.1 rfl
    rw [tailBits, tailBits, encodeChar_three first second (isTail_iff.1 tail)]
    rfl
  · rename_i a _ w₀ w₁ w₂ w₃ _ b second _ c tail _ d tail'
    have others : width a ≠ 0 ∧ width a ≠ 1 ∧ width a ≠ 2 ∧ width a ≠ 3 := ⟨w₀, w₁, w₂, w₃⟩
    have first := (range_of_width rfl).2.2 (show 3 < width a by omega)
    rw [tailBits, tailBits, tailBits,
      encodeChar_four first second (isTail_iff.1 tail) (isTail_iff.1 tail')]
    rfl

/-! ## Whole strings -/

def IsText (bs : Bytes) : Prop :=
  ∃ cs, encode cs = bs

/-- What was encoded is taken off, one character after another. -/
theorem decodeFrom_encode (i : Nat) (done cs : List Char) :
    decodeFrom i done (encode cs) = .ok (done.reverse ++ cs) := by
  induction cs generalizing i done with
  | nil =>
      rw [encode_nil, decodeFrom]
      simp [head]
  | cons c cs ih =>
      have start := head_encodeChar c (encode cs)
      rw [encode_cons, decodeFrom]
      split
      · rename_i other
        cases start.symm.trans other
      · rename_i c' rest same
        cases start.symm.trans same
        simp [ih]
      · rename_i other
        cases start.symm.trans other
      · rename_i other
        cases start.symm.trans other

theorem eq_encode_of_decodeFrom {i : Nat} {done : List Char}
    (decoded : decodeFrom i done bs = .ok cs) : ∃ ds, cs = done.reverse ++ ds ∧ encode ds = bs := by
  -- By the recursion of the decoder, one character at a time.
  fun_induction decodeFrom i done bs with
  | case1 i done bs start =>
      cases decoded
      have nothing : bs = [] := by
        unfold head at start
        repeat' split at start
        all_goals first | rfl | cases start
      exact ⟨[], by simp, nothing.symm⟩
  | case2 i done bs first rest start ih =>
      rcases ih decoded with ⟨ds, rfl, rfl⟩
      refine ⟨first :: ds, by simp, ?_⟩
      rw [encode_cons]
      exact (eq_append_of_head start).symm
  | case3 => cases decoded
  | case4 => cases decoded

/-- A byte string is decoded to the text that it is the encoding of, and to no other. -/
theorem decode_eq_ok_iff : decode bs = .ok cs ↔ encode cs = bs := by
  constructor
  · intro decoded
    rcases eq_encode_of_decodeFrom decoded with ⟨ds, rfl, same⟩
    exact same
  · rintro rfl
    exact decodeFrom_encode 0 [] cs

/-- There is a fault exactly where there is no text. -/
theorem exists_fault_iff : (∃ f, decode bs = .error f) ↔ ¬IsText bs := by
  constructor
  · rintro ⟨f, faulty⟩ ⟨cs, same⟩
    rw [decode_eq_ok_iff.2 same] at faulty
    cases faulty
  · intro noText
    cases decoded : decode bs with
    | ok cs => exact absurd ⟨cs, decode_eq_ok_iff.1 decoded⟩ noText
    | error f => exact ⟨f, rfl⟩

/-! ## Faults -/

/-- Bytes that cannot be continued to an encoding are one to three. -/
theorem width_of_head_broken {n : Nat} (start : head bs = .broken n rest) : 1 ≤ n ∧ n ≤ 3 := by
  unfold head at start
  repeat' split at start
  all_goals cases start
  all_goals omega

theorem fault_of_decodeFrom {i : Nat} {done : List Char} (faulty : decodeFrom i done bs = .error f) :
    ∃ cs tail, encode cs ++ tail = bs ∧ f.index = i + (encode cs).length ∧
      ((∃ n rest, head tail = .broken n rest ∧ f.width = some n) ∨
        head tail = .cut ∧ f.width = none) := by
  fun_induction decodeFrom i done bs with
  | case1 => cases faulty
  | case2 i done bs first rest start ih =>
      rcases ih faulty with ⟨cs, tail, split, index, width⟩
      refine ⟨first :: cs, tail, ?_, ?_, width⟩
      · rw [encode_cons, List.append_assoc, split]
        exact (eq_append_of_head start).symm
      · rw [index, encode_cons, List.length_append, String.length_utf8EncodeChar]
        omega
  | case3 i done bs n rest start =>
      cases faulty
      exact ⟨[], bs, rfl, rfl, .inl ⟨n, rest, start, rfl⟩⟩
  | case4 i done bs start =>
      cases faulty
      exact ⟨[], bs, rfl, rfl, .inr ⟨start, rfl⟩⟩

/-- A fault stands behind text, at bytes that do not begin with a character; it is as wide as the
bytes that cannot be continued, or has no width where the string ends inside an encoding. -/
theorem fault_spec (faulty : decode bs = .error f) :
    ∃ cs tail, encode cs ++ tail = bs ∧ f.index = (encode cs).length ∧
      ((∃ n rest, head tail = .broken n rest ∧ f.width = some n) ∨
        head tail = .cut ∧ f.width = none) := by
  simpa using fault_of_decodeFrom faulty

end Utf8
end LineExchange
