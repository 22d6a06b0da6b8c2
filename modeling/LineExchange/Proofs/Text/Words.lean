import Mathlib.Data.List.TakeWhile
import LineExchange.Text.Blank

/-!
# Words — how a text falls into blanks and words

The reader of requests trims a text, takes its first word, and counts the words behind it.  This
file says what these are without saying how they are found:

* `Text.Splits` — a text is its leading blanks, the blank-free run behind them, and a rest;
* `Text.HasWords` — the maximal blank-free runs of a text, in order.

A text splits in one way (`splits_iff`) and has one list of words (`words_eq_iff`).
-/

namespace LineExchange
namespace Text

variable {cs w v r word : List Char} {ws : List (List Char)}

/-! ## The first word -/

/-- `w` are the blanks that lead the text, `v` is the blank-free run behind them, and `r` is the
rest. -/
structure Splits (cs w v r : List Char) : Prop where
  whole : w ++ v ++ r = cs
  blank : ∀ c ∈ w, isBlank c = true
  ink : ∀ c ∈ v, isInk c = true
  /-- No more blanks lead the text. -/
  leads : ∀ c ∈ (v ++ r).head?, isInk c = true
  /-- The run does not go on. -/
  ends : ∀ c ∈ r.head?, isBlank c = true

theorem isInk_iff {c : Char} : isInk c = true ↔ isBlank c = false := by
  simp [isInk]

theorem isInk_eq_false_iff {c : Char} : isInk c = false ↔ isBlank c = true := by
  simp [isInk]

/-- What is left when a run was taken off does not begin with more of it. -/
theorem dropWhile_of_head {p : Char → Bool} (stops : ∀ c ∈ cs.head?, p c = false) :
    cs.dropWhile p = cs := by
  cases cs with
  | nil => rfl
  | cons c cs =>
      have stop : p c = false := stops c rfl
      simp [stop]

theorem takeWhile_of_head {p : Char → Bool} (stops : ∀ c ∈ cs.head?, p c = false) :
    cs.takeWhile p = [] := by
  cases cs with
  | nil => rfl
  | cons c cs =>
      have stop : p c = false := stops c rfl
      simp [stop]

namespace Splits

/-- A split can be checked. -/
theorem of_all (whole : w ++ v ++ r = cs) (blank : w.all isBlank = true) (ink : v.all isInk = true)
    (leads : (v ++ r).head?.all isInk = true) (ends : r.head?.all isBlank = true) :
    Splits cs w v r where
  whole := whole
  blank := List.all_eq_true.1 blank
  ink := List.all_eq_true.1 ink
  leads c first := by
    rw [Option.mem_def.1 first] at leads
    exact leads
  ends c first := by
    rw [Option.mem_def.1 first] at ends
    exact ends

theorem trimStart_eq (h : Splits cs w v r) : trimStart cs = v ++ r := by
  have stops : ∀ c ∈ (v ++ r).head?, isBlank c = false := by
    intro c first
    exact isInk_iff.1 (h.leads c first)
  rw [← h.whole, List.append_assoc, trimStart, List.dropWhile_append_of_pos h.blank]
  exact dropWhile_of_head stops

theorem stops (h : Splits cs w v r) : ∀ c ∈ r.head?, isInk c = false := by
  intro c first
  exact isInk_eq_false_iff.2 (h.ends c first)

theorem firstWord_eq (h : Splits cs w v r) : firstWord (trimStart cs) = v := by
  rw [h.trimStart_eq, firstWord, List.takeWhile_append_of_pos h.ink, takeWhile_of_head h.stops,
    List.append_nil]

theorem dropWhile_eq (h : Splits cs w v r) : (trimStart cs).dropWhile isInk = r := by
  rw [h.trimStart_eq, List.dropWhile_append_of_pos h.ink]
  exact dropWhile_of_head h.stops

theorem afterWord_eq (h : Splits cs w v r) : afterWord (trimStart cs) = trimStart r := by
  rw [afterWord, h.dropWhile_eq]

/-- More blanks may stand before a text. -/
theorem append_left {front : List Char} (blank : ∀ c ∈ front, isBlank c = true)
    (h : Splits cs w v r) : Splits (front ++ cs) (front ++ w) v r where
  whole := by rw [← h.whole, List.append_assoc, List.append_assoc, List.append_assoc]
  blank c mem := (List.mem_append.1 mem).elim (blank c) (h.blank c)
  ink := h.ink
  leads := h.leads
  ends := h.ends

end Splits

/-- Blanks are trimmed up to the first character that is none. -/
theorem trimStart_append_cons {b t : List Char} {c : Char} (blank : ∀ c ∈ b, isBlank c = true)
    (ink : isInk c = true) : trimStart (b ++ c :: t) = c :: t := by
  rw [trimStart, List.dropWhile_append_of_pos blank,
    List.dropWhile_cons_of_neg (by simp [isInk_iff.1 ink])]

theorem isBlank_of_mem_takeWhile {c : Char} (mem : c ∈ cs.takeWhile isBlank) : isBlank c = true :=
  List.all_eq_true.1 List.all_takeWhile c mem

theorem head_dropWhile {p : Char → Bool} {c : Char} (first : c ∈ (cs.dropWhile p).head?) :
    p c = false := by
  have stops := List.head?_dropWhile_not p cs
  rw [Option.mem_def.1 first] at stops
  exact stops

/-- A text has nothing but blanks, or begins with blanks and a character that is none. -/
theorem blank_or_ink (cs : List Char) :
    (∀ c ∈ cs, isBlank c = true) ∨
      ∃ b c t, (∀ d ∈ b, isBlank d = true) ∧ isInk c = true ∧ b ++ c :: t = cs := by
  cases rest : cs.dropWhile isBlank with
  | nil => exact .inl (List.dropWhile_eq_nil_iff.1 rest)
  | cons c t =>
      have first : c ∈ (cs.dropWhile isBlank).head? := by
        rw [rest]
        exact Option.mem_some_self c
      refine .inr ⟨cs.takeWhile isBlank, c, t, ?_, ?_, ?_⟩
      · intro d mem
        exact isBlank_of_mem_takeWhile mem
      · exact isInk_iff.2 (head_dropWhile first)
      · rw [← rest, List.takeWhile_append_dropWhile]

/-- Every text splits at its first word. -/
theorem splits_trimStart (cs : List Char) :
    Splits cs (cs.takeWhile isBlank) (firstWord (trimStart cs))
      ((trimStart cs).dropWhile isInk) where
  whole := by
    rw [List.append_assoc, firstWord, List.takeWhile_append_dropWhile, trimStart,
      List.takeWhile_append_dropWhile]
  blank _ mem := isBlank_of_mem_takeWhile mem
  ink := List.all_eq_true.1 List.all_takeWhile
  leads c first := by
    rw [firstWord, List.takeWhile_append_dropWhile] at first
    exact isInk_iff.2 (head_dropWhile first)
  ends c first := isInk_eq_false_iff.1 (head_dropWhile first)

/-- A text splits in one way. -/
theorem splits_iff :
    Splits cs w v r ↔
      w = cs.takeWhile isBlank ∧ v = firstWord (trimStart cs) ∧
        r = (trimStart cs).dropWhile isInk := by
  constructor
  · intro h
    have lead : cs.takeWhile isBlank = w := by
      have parted : cs.takeWhile isBlank ++ trimStart cs = w ++ (v ++ r) := by
        rw [trimStart, List.takeWhile_append_dropWhile, ← List.append_assoc, h.whole]
      rw [h.trimStart_eq] at parted
      exact List.append_cancel_right parted
    exact ⟨lead.symm, h.firstWord_eq.symm, h.dropWhile_eq.symm⟩
  · rintro ⟨rfl, rfl, rfl⟩
    exact splits_trimStart cs

/-! ## All words -/

/-- The words of a text: its maximal blank-free runs, in order. -/
inductive HasWords : List Char → List (List Char) → Prop where
  | nil {cs : List Char} (blank : ∀ c ∈ cs, isBlank c = true) : HasWords cs []
  | cons {cs w v r : List Char} {ws : List (List Char)} (split : Splits cs w v r) (hne : v ≠ [])
      (rest : HasWords r ws) : HasWords cs (v :: ws)

namespace HasWords

/-- Blanks before a text are no words. -/
theorem append_left {front : List Char} (blank : ∀ c ∈ front, isBlank c = true)
    (h : HasWords cs ws) : HasWords (front ++ cs) ws := by
  cases h with
  | nil blank' =>
      refine .nil ?_
      intro c mem
      exact (List.mem_append.1 mem).elim (blank c) (blank' c)
  | cons split hne rest => exact .cons (split.append_left blank) hne rest

/-- A run without blanks is the only word of a text that ends in it. -/
theorem single (blank : ∀ c ∈ w, isBlank c = true) (hne : word ≠ [])
    (ink : ∀ c ∈ word, isInk c = true) : HasWords (w ++ word) [word] := by
  have split : Splits (w ++ word) w word [] :=
    { whole := List.append_nil (w ++ word)
      blank := blank
      ink := ink
      leads := by
        intro c first
        rw [List.append_nil] at first
        exact ink c (List.mem_of_mem_head? first)
      ends := by simp }
  exact .cons split hne (.nil (by simp))

theorem of_trimStart (h : HasWords (trimStart cs) ws) : HasWords cs ws := by
  have whole : cs.takeWhile isBlank ++ trimStart cs = cs := List.takeWhile_append_dropWhile
  rw [← whole]
  exact h.append_left fun _ mem => isBlank_of_mem_takeWhile mem

/-- A text of blanks has no first word. -/
theorem eq_nil_of_blank (blank : ∀ c ∈ cs, isBlank c = true) (split : Splits cs w v r) : v = [] := by
  cases v with
  | nil => rfl
  | cons c v =>
      have mem : c ∈ cs := by simp [← split.whole]
      have ink := split.ink c List.mem_cons_self
      rw [isInk_iff, blank c mem] at ink
      cases ink

/-- A text has one list of words. -/
theorem unique {us : List (List Char)} (h : HasWords cs ws) (k : HasWords cs us) : ws = us := by
  induction h generalizing us with
  | nil blank =>
      cases k with
      | nil => rfl
      | cons split hne => exact absurd (eq_nil_of_blank blank split) hne
  | cons split hne rest ih =>
      cases k with
      | nil blank => exact absurd (eq_nil_of_blank blank split) hne
      | cons split' hne' rest' =>
          rcases splits_iff.1 split with ⟨-, rfl, rfl⟩
          rcases splits_iff.1 split' with ⟨-, rfl, rfl⟩
          rw [ih rest']

end HasWords

theorem hasWords_wordsFrom (done : List (List Char)) (cs : List Char) :
    ∃ ws, wordsFrom done cs = done.reverse ++ ws ∧ HasWords cs ws := by
  -- By the recursion of the splitting, one word at a time.
  fun_induction wordsFrom done cs with
  | case1 done cs nothing =>
      exact ⟨[], by simp, .nil (List.dropWhile_eq_nil_iff.1 nothing)⟩
  | case2 done cs c r found ih =>
      rcases ih with ⟨ws, same, behind⟩
      have ink : isInk c = true := by
        have first : c ∈ (trimStart cs).head? := by simp [found]
        exact isInk_iff.2 (head_dropWhile first)
      have split := splits_trimStart cs
      rw [found] at split
      have hne : firstWord (c :: r) ≠ [] := by simp [firstWord, ink]
      exact ⟨firstWord (c :: r) :: ws, by simp [same], .cons split hne behind.of_trimStart⟩

/-- The words of a text are those that it has. -/
theorem words_eq_iff : words cs = ws ↔ HasWords cs ws := by
  rcases hasWords_wordsFrom [] cs with ⟨us, same, has⟩
  have found : words cs = us := same
  rw [found]
  exact ⟨fun eq => eq ▸ has, fun has' => has.unique has'⟩

/-- The blanks that lead a text are no words. -/
theorem words_trimStart (cs : List Char) : words (trimStart cs) = words cs := by
  have has : HasWords (trimStart cs) (words (trimStart cs)) := words_eq_iff.1 rfl
  exact (words_eq_iff.2 has.of_trimStart).symm

/-- A text has no words when it has nothing but blanks. -/
theorem HasWords.eq_nil_iff (has : HasWords cs ws) : ws = [] ↔ trimStart cs = [] := by
  constructor
  · rintro rfl
    cases has with
    | nil blank => exact List.dropWhile_eq_nil_iff.2 blank
  · intro nothing
    exact has.unique (.nil (List.dropWhile_eq_nil_iff.1 nothing))

end Text
end LineExchange
