import LineExchange.Text.Utf8

/-!
# Line — lines of bytes and the byte that ends them

Every request and every response is one line.  This file defines:

* `Line.delimiter` — the byte that ends a line of the protocol;
* `Line.strip` — a line without its delimiter and without a carriage return before it;
* `Line.cut?` — the first line of a byte string for a given delimiter, and what follows it.
-/

namespace LineExchange
namespace Line

/-- The byte that ends every line of the protocol. -/
def delimiter : UInt8 := 10

/-- The byte that may stand before the delimiter and is not part of the line's text. -/
def carriageReturn : UInt8 := 13

/-- `bs` without one last byte `b`, if it ends in `b`. -/
def dropLast (b : UInt8) (bs : Bytes) : Bytes :=
  if bs.getLast? = some b then List.dropLast bs else bs

/-- A line without its delimiter, and then without a carriage return at its end. -/
def strip (bs : Bytes) : Bytes :=
  dropLast carriageReturn (dropLast delimiter bs)

/-- The shortest part of `bs` from its start that ends in `d`, and what follows it. -/
def cut? (d : UInt8) (bs : Bytes) : Option (Bytes × Bytes) :=
  match bs.dropWhile (· != d) with
  | [] => none
  | b :: rest => some (bs.takeWhile (· != d) ++ [b], rest)

/-- Cutting off a line loses nothing. -/
theorem append_of_cut? {d : UInt8} {bs line rest : Bytes} (h : cut? d bs = some (line, rest)) :
    line ++ rest = bs := by
  unfold cut? at h
  split at h
  · cases h
  · rename_i b r hd
    cases h
    rw [List.append_assoc, List.singleton_append, ← hd, List.takeWhile_append_dropWhile]

/-- A delimiter that does not occur leaves nothing to cut. -/
theorem dropWhile_eq_nil_iff {d : UInt8} {bs : Bytes} :
    bs.dropWhile (· != d) = [] ↔ d ∉ bs := by
  induction bs with
  | nil => simp
  | cons b bs ih =>
      by_cases h : b = d
      · simp [h]
      · simp [h, ih, Ne.symm h]

/-- There is a line to cut off exactly when the delimiter occurs. -/
theorem cut?_eq_none_iff {d : UInt8} {bs : Bytes} : cut? d bs = none ↔ d ∉ bs := by
  unfold cut?
  rw [← dropWhile_eq_nil_iff]
  split
  · rename_i h
    simp [h]
  · rename_i h
    simp [h]

end Line
end LineExchange
