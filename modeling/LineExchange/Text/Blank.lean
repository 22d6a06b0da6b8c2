/-!
# Blank — the characters that separate words

This file defines:

* `isBlank` — the characters with the Unicode property `White_Space`;
* `trimStart` — a text without its leading blanks;
* `firstWord`, `afterWord` — the text before the first blank, and what follows it without the
  blanks that lead it;
* `words` — the maximal blank-free runs of a text, in order.
-/

namespace LineExchange
namespace Text

/-- The characters with the Unicode property `White_Space`. -/
def isBlank (c : Char) : Bool :=
  let n := c.toNat
  (9 ≤ n && n ≤ 13) || n == 0x20 || n == 0x85 || n == 0xA0 || n == 0x1680
    || (0x2000 ≤ n && n ≤ 0x200A) || n == 0x2028 || n == 0x2029 || n == 0x202F
    || n == 0x205F || n == 0x3000

def isInk (c : Char) : Bool :=
  !isBlank c

def trimStart (cs : List Char) : List Char :=
  cs.dropWhile isBlank

def firstWord (cs : List Char) : List Char :=
  cs.takeWhile isInk

/-- What follows the text before the first blank, without its leading blanks. -/
def afterWord (cs : List Char) : List Char :=
  trimStart (cs.dropWhile isInk)

theorem length_dropWhile_le {α : Type} (p : α → Bool) (xs : List α) :
    (xs.dropWhile p).length ≤ xs.length :=
  (List.dropWhile_suffix p).length_le

/-- Leaving out the first word makes a text that holds one shorter. -/
theorem length_afterWord_lt (c : Char) (cs : List Char) (h : isInk c = true) :
    (afterWord (c :: cs)).length < (c :: cs).length := by
  have h₁ : (afterWord (c :: cs)).length ≤ (cs.dropWhile isInk).length := by
    simpa [afterWord, trimStart, h] using length_dropWhile_le isBlank (cs.dropWhile isInk)
  have h₂ := length_dropWhile_le isInk cs
  simp only [List.length_cons]
  omega

/-- The words of `cs`, after the words `done`, last first. -/
def wordsFrom (done : List (List Char)) (cs : List Char) : List (List Char) :=
  match _h : trimStart cs with
  | [] => done.reverse
  | c :: r => wordsFrom (firstWord (c :: r) :: done) (afterWord (c :: r))
termination_by cs.length
decreasing_by
  have hle : (trimStart cs).length ≤ cs.length := length_dropWhile_le isBlank cs
  have hink : isInk c = true := by
    have := List.head?_dropWhile_not isBlank cs
    rw [show List.dropWhile isBlank cs = c :: r from _h] at this
    simpa [isInk] using this
  have := length_afterWord_lt c r hink
  rw [_h] at hle
  omega

/-- The maximal blank-free runs of a text, in order. -/
def words (cs : List Char) : List (List Char) :=
  wordsFrom [] cs

end Text
end LineExchange
