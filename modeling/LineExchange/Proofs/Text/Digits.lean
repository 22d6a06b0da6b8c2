import LineExchange.Text.Numeral

/-!
# Digits — the numbers that words spell

A number is read in one pass that stops at a bound.  This file says which words spell which numbers
without saying how they are read:

* `Numeral.Spells` — a word is an optional plus sign and the digits of a number.

Reading finds the numbers that are spelled, below the bound (`natural?_eq_some_iff`), and the usual
digits of a number spell it (`spells_toString`).
-/

namespace LineExchange
namespace Numeral

variable {c : Char} {ds word : List Char} {bound n : Nat}

/-- The word is an optional plus sign and one or more ASCII digits of value `n`. -/
def Spells (word : List Char) (n : Nat) : Prop :=
  ∃ ds, (word = ds ∨ word = '+' :: ds) ∧ ds ≠ [] ∧ (∀ c ∈ ds, c.isDigit = true) ∧
    Nat.ofDigitChars 10 ds 0 = n

/-! ## Digits -/

theorem isDigit_iff_range : c.isDigit = true ↔ 48 ≤ c.toNat ∧ c.toNat ≤ 57 := by
  simp only [Char.isDigit, Bool.and_eq_true, decide_eq_true_eq]
  exact Iff.rfl

/-- The decimal digits have values below ten, and nothing else does. -/
theorem digitValue?_ten (c : Char) :
    digitValue? 10 c = if c.isDigit = true then some (c.toNat - 48) else none := by
  simp only [digitValue?, isDigit_iff_range, Bool.and_eq_true, decide_eq_true_eq]
  split
  · rename_i range
    rw [Option.filter_some, if_pos (by simp; omega)]
  · split
    · rename_i letter
      rw [Option.filter_some, if_neg (by simp; omega)]
    · split
      · rename_i letter
        rw [Option.filter_some, if_neg (by simp; omega)]
      · rfl

theorem isDigit_ten (c : Char) : isDigit 10 c = c.isDigit := by
  rw [isDigit, digitValue?_ten]
  cases c.isDigit <;> rfl

/-- The value of a run of digits, behind the digits of `v`. -/
theorem foldl_eq_ofDigitChars (digits : ∀ c ∈ ds, c.isDigit = true) (v : Nat) :
    ds.foldl (fun v c => v * 10 + (digitValue? 10 c).getD 0) v = Nat.ofDigitChars 10 ds v := by
  induction ds generalizing v with
  | nil => rfl
  | cons c ds ih =>
      have digit : c.isDigit = true := digits c List.mem_cons_self
      have later := ih (fun d mem => digits d (List.mem_cons_of_mem c mem))
      rw [List.foldl_cons, later, digitValue?_ten, if_pos digit, Nat.mul_comm]
      rfl

theorem value?_ten_eq_some_iff :
    value? 10 ds = some n ↔
      ds ≠ [] ∧ (∀ c ∈ ds, c.isDigit = true) ∧ Nat.ofDigitChars 10 ds 0 = n := by
  have all : ds.all (isDigit 10) = true ↔ ∀ c ∈ ds, c.isDigit = true := by
    simp only [List.all_eq_true, isDigit_ten]
  rw [value?]
  split
  · rename_i h
    rw [Bool.and_eq_true, all] at h
    rcases h with ⟨hne, digits⟩
    rw [valueOf, foldl_eq_ofDigitChars digits, Option.some.injEq]
    constructor
    · intro value
      exact ⟨by simpa using hne, digits, value⟩
    · rintro ⟨-, -, value⟩
      exact value
  · rename_i h
    constructor
    · intro hnone
      cases hnone
    · rintro ⟨hne, digits, -⟩
      refine absurd ?_ h
      rw [Bool.and_eq_true, all]
      exact ⟨by simpa using hne, digits⟩

/-! ## Words -/

/-- The digits of a word are what its plus sign leaves. -/
theorem dropPlus_of_digits (digits : ∀ c ∈ ds, c.isDigit = true) (is : word = ds ∨ word = '+' :: ds) :
    dropPlus word = ds := by
  rcases is with rfl | rfl
  · cases word with
    | nil => rfl
    | cons c cs =>
        have digit := digits c List.mem_cons_self
        unfold dropPlus
        split
        · rename_i same
          cases same
          cases digit
        · rfl
  · rfl

theorem eq_dropPlus (word : List Char) : word = dropPlus word ∨ word = '+' :: dropPlus word := by
  unfold dropPlus
  split
  · exact .inr rfl
  · exact .inl rfl

/-- A word spells what its digits denote. -/
theorem spells_iff : Spells word n ↔ value? 10 (dropPlus word) = some n := by
  rw [value?_ten_eq_some_iff]
  constructor
  · rintro ⟨ds, is, hne, digits, value⟩
    rw [dropPlus_of_digits digits is]
    exact ⟨hne, digits, value⟩
  · rintro ⟨hne, digits, value⟩
    exact ⟨dropPlus word, eq_dropPlus word, hne, digits, value⟩

/-- Reading finds the number that a word spells, if it is below the bound. -/
theorem natural?_eq_some_iff : natural? bound word = some n ↔ Spells word n ∧ n < bound := by
  rw [natural?_eq, spells_iff, Option.filter_eq_some_iff, decide_eq_true_eq]

/-- A number is spelled by its digits. -/
theorem spells_toString (n : Nat) : Spells (toString n).toList n := by
  rw [Nat.toString_eq_repr, Nat.repr, String.toList_ofList]
  refine ⟨Nat.toDigits 10 n, .inl rfl, ?_, ?_, ?_⟩
  · exact Nat.toDigits_ne_nil
  · intro c mem
    exact Nat.isDigit_of_mem_toDigits (by decide) (by decide) mem
  · exact Nat.ofDigitChars_toDigits (by decide) (by decide)

end Numeral
end LineExchange
