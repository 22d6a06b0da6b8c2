/-!
# Numeral — whole numbers written in digits

This file defines:

* `digitValue?` — the value of a digit in a base of at most sixteen;
* `value?` — the number that a non-empty run of digits denotes;
* `below?` — the same number when it is below a bound, in one pass that stops at the bound;
* `natural?` — a decimal number below a bound, with an optional plus sign in front.

Leading zeros are allowed everywhere; signs other than one plus are not.  The main statement,
`below?_eq`, is that stopping at the bound changes no number.
-/

namespace LineExchange
namespace Numeral

/-- The value of the digit `c` in base `base`, for bases up to sixteen. -/
def digitValue? (base : Nat) (c : Char) : Option Nat :=
  let n := c.toNat
  let v? :=
    if 48 ≤ n && n ≤ 57 then some (n - 48)
    else if 97 ≤ n && n ≤ 102 then some (n - 87)
    else if 65 ≤ n && n ≤ 70 then some (n - 55)
    else none
  v?.filter (· < base)

def isDigit (base : Nat) (c : Char) : Bool :=
  (digitValue? base c).isSome

/-- The number that a list of digits denotes; characters that are no digits count as zero. -/
def valueOf (base : Nat) (cs : List Char) : Nat :=
  cs.foldl (fun v c => v * base + (digitValue? base c).getD 0) 0

/-- The number that `cs` denotes, when it is a non-empty run of digits. -/
def value? (base : Nat) (cs : List Char) : Option Nat :=
  if !cs.isEmpty && cs.all (isDigit base) then some (valueOf base cs) else none

/-- The number below `bound` that the digits `cs` denote behind those of `v`. -/
def belowFrom? (base bound v : Nat) : List Char → Option Nat
  | [] => if v < bound then some v else none
  | c :: cs =>
      if v < bound then
        match digitValue? base c with
        | some d => belowFrom? base bound (v * base + d) cs
        | none => none
      else none

/-- The number below `bound` that `cs` denotes, when it is a non-empty run of digits. -/
def below? (base bound : Nat) (cs : List Char) : Option Nat :=
  if cs.isEmpty then none else belowFrom? base bound 0 cs

/-- More digits make no number smaller. -/
theorem le_foldl_digits {base : Nat} (hb : 0 < base) (cs : List Char) (v : Nat) :
    v ≤ cs.foldl (fun v c => v * base + (digitValue? base c).getD 0) v := by
  induction cs generalizing v with
  | nil => exact Nat.le_refl v
  | cons c cs ih =>
      calc
        v ≤ v * base + (digitValue? base c).getD 0 :=
          Nat.le_add_right_of_le (Nat.le_mul_of_pos_right v hb)
        _ ≤ _ := ih _

/-- Digits behind `v` denote the number that they make with it, if it is below the bound. -/
theorem belowFrom?_eq {base : Nat} (hb : 0 < base) (bound : Nat) (cs : List Char) (v : Nat) :
    belowFrom? base bound v cs =
      if cs.all (isDigit base) then
        some (cs.foldl (fun v c => v * base + (digitValue? base c).getD 0) v) |>.filter (· < bound)
      else none := by
  induction cs generalizing v with
  | nil => by_cases hv : v < bound <;> simp [belowFrom?, Option.filter, hv]
  | cons c cs ih =>
      by_cases hv : v < bound
      · cases hd : digitValue? base c with
        | none => simp [belowFrom?, hv, hd, isDigit]
        | some d => simp [belowFrom?, hv, hd, isDigit, ih]
      · have atLeast := le_foldl_digits hb (c :: cs) v
        have tooLarge : ¬ (c :: cs).foldl
            (fun v c => v * base + (digitValue? base c).getD 0) v < bound := by omega
        rw [belowFrom?, if_neg hv]
        split
        · simp only [Option.filter, tooLarge, decide_false, Bool.false_eq_true, if_false]
        · rfl

/-- Stopping at the bound changes no number. -/
theorem below?_eq {base : Nat} (hb : 0 < base) (bound : Nat) (cs : List Char) :
    below? base bound cs = (value? base cs).filter (· < bound) := by
  cases cs with
  | nil => rfl
  | cons c cs =>
      rw [below?, if_neg (by simp), belowFrom?_eq hb, value?, valueOf]
      by_cases h : (c :: cs).all (isDigit base) <;> simp [h]

def dropPlus : List Char → List Char
  | '+' :: cs => cs
  | cs => cs

/-- The decimal number below `bound` that `cs` denotes, with an optional plus sign in front. -/
def natural? (bound : Nat) (cs : List Char) : Option Nat :=
  below? 10 bound (dropPlus cs)

/-- The number that a text denotes is that of its digits. -/
theorem natural?_eq (bound : Nat) (cs : List Char) :
    natural? bound cs = (value? 10 (dropPlus cs)).filter (· < bound) :=
  below?_eq (by decide) bound (dropPlus cs)

end Numeral
end LineExchange
