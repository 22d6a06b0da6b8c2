import Mathlib.Data.List.Forall2
import LineExchange.Proofs.Text.Decoding
import LineExchange.Proofs.Text.Digits
import LineExchange.Proofs.Text.Words
import LineExchange.Request.Reader

/-!
# Grammar — the requests that lines carry

This file gives the grammar of request lines, without saying how a line is read:

* `IsWithoutLast`, `Line.IsStripped` — a line without its delimiter and the carriage return before
  it;
* `Text.SameUpToCase` — texts that differ in the case of ASCII letters only;
* `Verb.Calls`, `Verb.Takes` — the words that name a command, and how many words may follow it;
* `Request.Reads` — what a first word and the rest behind it come to, one rule for each result.

The reader decides exactly this grammar (`Request.reads_exactly_its_grammar`): a line is refused as
no text exactly when its bytes are not the encoding of one, and otherwise its result is the one that
the rules give to the one way in which the text splits.
-/

namespace LineExchange

/-! ## Stripped lines -/

/-- `s` is `bs` without one last element `b`, or `bs` itself where it does not end in `b`. -/
def IsWithoutLast {α : Type} (b : α) (bs s : List α) : Prop :=
  bs = s ++ [b] ∨ bs = s ∧ ∀ front, bs ≠ front ++ [b]

theorem IsWithoutLast.of_not_mem {α : Type} {b : α} {bs : List α} (free : b ∉ bs) :
    IsWithoutLast b bs bs := by
  refine .inr ⟨rfl, ?_⟩
  rintro front rfl
  simp at free

theorem exists_isWithoutLast {α : Type} (b : α) (bs : List α) : ∃ s, IsWithoutLast b bs s := by
  by_cases ends : ∃ front, bs = front ++ [b]
  · rcases ends with ⟨front, same⟩
    exact ⟨front, .inl same⟩
  · exact ⟨bs, .inr ⟨rfl, fun front same => ends ⟨front, same⟩⟩⟩

namespace Line

variable {b : UInt8} {bs s : Bytes}

/-- `s` is `bs` without one delimiter at its end, and then without one carriage return. -/
def IsStripped (bs s : Bytes) : Prop :=
  ∃ m, IsWithoutLast delimiter bs m ∧ IsWithoutLast carriageReturn m s

theorem dropLast_concat (b : UInt8) (front : Bytes) : dropLast b (front ++ [b]) = front := by
  simp [dropLast]

theorem dropLast_of_not_concat (other : ∀ front, bs ≠ front ++ [b]) : dropLast b bs = bs := by
  rw [dropLast, if_neg]
  intro last
  rcases List.getLast?_eq_some_iff.1 last with ⟨front, same⟩
  exact other front same

theorem eq_dropLast (h : IsWithoutLast b bs s) : s = dropLast b bs := by
  rcases h with rfl | ⟨rfl, other⟩
  · exact (dropLast_concat b s).symm
  · exact (dropLast_of_not_concat other).symm

theorem isWithoutLast_iff : IsWithoutLast b bs s ↔ s = dropLast b bs := by
  constructor
  · intro h
    exact eq_dropLast h
  · rintro rfl
    rcases exists_isWithoutLast b bs with ⟨s, h⟩
    rw [← eq_dropLast h]
    exact h

/-- Every line is stripped to one byte string. -/
theorem isStripped_iff : IsStripped bs s ↔ s = strip bs := by
  simp only [IsStripped, isWithoutLast_iff]
  constructor
  · rintro ⟨m, rfl, same⟩
    exact same
  · intro same
    exact ⟨_, rfl, same⟩

end Line

/-! ## Texts up to case -/

namespace Text

variable {c d : Char} {cs ds : List Char}

/-- The characters are the same, or the small and the capital form of one ASCII letter. -/
def SameLetter (c d : Char) : Prop :=
  c = d ∨ (c.isUpper = true ∧ d.toNat = c.toNat + 32) ∨ (d.isUpper = true ∧ c.toNat = d.toNat + 32)

/-- The texts differ in the case of ASCII letters only. -/
def SameUpToCase (cs ds : List Char) : Prop :=
  List.Forall₂ SameLetter cs ds

theorem isUpper_iff_range : c.isUpper = true ↔ 65 ≤ c.toNat ∧ c.toNat ≤ 90 := by
  delta Char.isUpper
  exact decide_eq_true_iff

theorem isLower_iff_range : c.isLower = true ↔ 97 ≤ c.toNat ∧ c.toNat ≤ 122 := by
  delta Char.isLower
  rw [Bool.and_eq_true, decide_eq_true_iff, decide_eq_true_iff]
  exact Iff.rfl

theorem toNat_toUpper (c : Char) :
    c.toUpper.toNat = if c.isLower = true then c.toNat - 32 else c.toNat := by
  have number : c.val.toNat = c.toNat := rfl
  simp only [isLower_iff_range]
  delta Char.toUpper
  split
  · rename_i lower
    have range : 97 ≤ c.toNat ∧ c.toNat ≤ 122 := lower
    have moved : (c.val + ('A'.val - 'a'.val)).toNat = (c.toNat + 4294967264) % 4294967296 := by
      rw [UInt32.toNat_add, number]
      rfl
    rw [if_pos range]
    refine Eq.trans moved ?_
    omega
  · rename_i other
    have range : ¬(97 ≤ c.toNat ∧ c.toNat ≤ 122) := other
    rw [if_neg range]

/-- A character has the capital form `d` exactly when it is the same letter. -/
theorem toUpper_eq_iff (capital : d.isLower = false) : c.toUpper = d ↔ SameLetter c d := by
  have same : ∀ e : Char, e = d ↔ e.toNat = d.toNat := fun e => Char.toNat_inj.symm
  rw [SameLetter, same, same, toNat_toUpper]
  rw [Bool.eq_false_iff, Ne] at capital
  simp only [isLower_iff_range, isUpper_iff_range] at capital ⊢
  split <;> omega

theorem map_toUpper_eq_iff (capitals : ∀ d ∈ ds, d.isLower = false) :
    cs.map Char.toUpper = ds ↔ SameUpToCase cs ds := by
  induction cs generalizing ds with
  | nil => simp [SameUpToCase, eq_comm]
  | cons c cs ih =>
      cases ds with
      | nil => simp [SameUpToCase]
      | cons d ds =>
          have first := toUpper_eq_iff (c := c) (capitals d List.mem_cons_self)
          have later := ih (fun e mem => capitals e (List.mem_cons_of_mem d mem))
          simp [SameUpToCase, first, later]

end Text

/-! ## Commands -/

namespace Verb

variable {cs : List Char} {verb : Verb}

def Calls (cs : List Char) (verb : Verb) : Prop :=
  Text.SameUpToCase cs verb.name.toList

/-- How many words may follow the name of a command.  A text to echo is one or more. -/
def Takes : Verb → Nat → Prop
  | .ping, n => n = 0
  | .echo, n => 0 < n
  | .longCalculation, n => n = 1

theorem calls_iff : verb.Calls cs ↔ cs.map Char.toUpper = verb.name.toList := by
  have all : verb.name.toList.all (fun d => !d.isLower) = true := by cases verb <;> decide
  have capitals : ∀ d ∈ verb.name.toList, d.isLower = false := by
    intro d mem
    simpa using List.all_eq_true.1 all d mem
  exact (Text.map_toUpper_eq_iff capitals).symm

/-- The command of a name is the one that it calls. -/
theorem named?_eq_some_iff : named? cs = some verb ↔ verb.Calls cs := by
  rw [calls_iff]
  constructor
  · intro found
    have same := List.find?_some found
    exact (eq_of_beq same).symm
  · intro same
    -- No two commands have one name.
    rw [named?, same]
    cases verb <;> decide

theorem named?_eq_none_iff : named? cs = none ↔ ∀ verb : Verb, ¬verb.Calls cs := by
  simp only [← named?_eq_some_iff, Option.eq_none_iff_forall_ne_some, ne_eq]

end Verb

/-! ## Requests -/

namespace Request

open Text

variable {bs s : Bytes} {cs w v r word : List Char} {ws : List (List Char)} {n : Nat} {verb : Verb}
  {x : Except Refusal Request}

/-- What the first word `v` of a text and the rest `r` behind it come to. -/
inductive Reads (v r : List Char) : Except Refusal Request → Prop where
  /-- There is no word at all. -/
  | empty (hnil : v = []) : Reads v r (.error .empty)
  | ping (calls : Verb.ping.Calls v) (alone : ∀ c ∈ r, isBlank c = true) : Reads v r (.ok .ping)
  /-- Behind the blanks that lead it, the rest is kept as it is. -/
  | echo {b t : List Char} {c : Char} (calls : Verb.echo.Calls v)
      (blank : ∀ c ∈ b, isBlank c = true) (ink : isInk c = true) (parted : b ++ c :: t = r) :
      Reads v r (.ok (.echo (String.ofList (c :: t))))
  | longCalculation {word : List Char} {n : Nat} (calls : Verb.longCalculation.Calls v)
      (one : HasWords r [word]) (spells : Numeral.Spells word n) (fits : n < UInt64.size) :
      Reads v r (.ok (.longCalculation (Pause.ofSeconds (UInt64.ofNat n))))
  | notANumber {word : List Char} (calls : Verb.longCalculation.Calls v)
      (one : HasWords r [word]) (tooLarge : ∀ n, Numeral.Spells word n → UInt64.size ≤ n) :
      Reads v r (.error (.notANumber (String.ofList word)))
  | wrongArity {verb : Verb} {ws : List (List Char)} (calls : verb.Calls v) (has : HasWords r ws)
      (other : ¬verb.Takes ws.length) : Reads v r (.error (.wrongArity verb))
  /-- The word is quoted as it was written. -/
  | unknownCommand (hne : v ≠ []) (other : ∀ verb : Verb, ¬verb.Calls v) :
      Reads v r (.error (.unknownCommand (String.ofList v)))

/-- The number of seconds of a word is the one it spells, if it is one of 64 bits. -/
theorem seconds?_of_spells (spells : Numeral.Spells word n) (fits : n < UInt64.size) :
    seconds? word = some (UInt64.ofNat n) := by
  have found : Numeral.natural? UInt64.size word = some n :=
    Numeral.natural?_eq_some_iff.2 ⟨spells, fits⟩
  rw [seconds?, found]
  rfl

theorem seconds?_of_tooLarge (tooLarge : ∀ n, Numeral.Spells word n → UInt64.size ≤ n) :
    seconds? word = none := by
  rw [seconds?, Option.map_eq_none_iff, Option.eq_none_iff_forall_ne_some]
  intro n found
  rcases Numeral.natural?_eq_some_iff.1 found with ⟨spells, fits⟩
  exact absurd fits (Nat.not_lt.2 (tooLarge n spells))

/-- A word has a number of seconds or spells none that fits. -/
theorem seconds?_cases (word : List Char) :
    (∃ n, Numeral.Spells word n ∧ n < UInt64.size) ∨ ∀ n, Numeral.Spells word n → UInt64.size ≤ n := by
  by_cases fits : ∃ n, Numeral.Spells word n ∧ n < UInt64.size
  · exact .inl fits
  · refine .inr fun n spells => ?_
    by_contra small
    exact fits ⟨n, spells, Nat.lt_of_not_le small⟩

/-- A text without a word is refused as empty. -/
theorem ofText?_of_nil (split : Splits cs w [] r) : ofText? cs = .error .empty := by
  simp only [ofText?, split.firstWord_eq, List.isEmpty_nil, if_true]

/-- A text whose first word is no command is refused with that word. -/
theorem ofText?_of_unknown (split : Splits cs w v r) (hne : v ≠ [])
    (other : ∀ verb : Verb, ¬verb.Calls v) :
    ofText? cs = .error (.unknownCommand (String.ofList v)) := by
  have word : v.isEmpty = false := List.isEmpty_eq_false_iff.2 hne
  have named := Verb.named?_eq_none_iff.2 other
  simp only [ofText?, split.firstWord_eq, word, named, Bool.false_eq_true, if_false]

/-- A text whose first word is a command is read by what stands behind it. -/
theorem ofText?_of_calls (split : Splits cs w v r) (calls : verb.Calls v) :
    ofText? cs = ofVerb? verb (trimStart r) := by
  have word : v.isEmpty = false := by
    cases v with
    | nil => cases verb <;> cases calls
    | cons c v => rfl
  have named := Verb.named?_eq_some_iff.2 calls
  simp only [ofText?, split.firstWord_eq, split.afterWord_eq, word, named, Bool.false_eq_true,
    if_false]

/-- What the rules give is what is read. -/
theorem Reads.ofText?_eq (split : Splits cs w v r) (reads : Reads v r x) : ofText? cs = x := by
  cases reads with
  | empty hnil =>
      subst hnil
      exact ofText?_of_nil split
  | ping calls alone =>
      have nothing : trimStart r = [] := List.dropWhile_eq_nil_iff.2 alone
      rw [ofText?_of_calls split calls, nothing]
      rfl
  | echo calls blank ink parted =>
      rw [ofText?_of_calls split calls, ← parted, trimStart_append_cons blank ink]
      rfl
  | longCalculation calls one spells fits =>
      rw [ofText?_of_calls split calls, ofVerb?, words_trimStart, words_eq_iff.2 one]
      simp only [seconds?_of_spells spells fits]
  | notANumber calls one tooLarge =>
      rw [ofText?_of_calls split calls, ofVerb?, words_trimStart, words_eq_iff.2 one]
      simp only [seconds?_of_tooLarge tooLarge]
  | @wrongArity verb ws calls has other =>
      rw [ofText?_of_calls split calls]
      cases verb with
      | ping =>
          have more : trimStart r ≠ [] := by
            intro nothing
            apply other
            rw [has.eq_nil_iff.2 nothing]
            rfl
          rw [ofVerb?, if_neg (by simpa using more)]
      | echo =>
          have hnil : ws = [] := List.length_eq_zero_iff.1 (Nat.eq_zero_of_not_pos other)
          rw [has.eq_nil_iff.1 hnil]
          rfl
      | longCalculation =>
          rw [ofVerb?, words_trimStart, words_eq_iff.2 has]
          -- Any number of arguments but one.
          match ws, other with
          | [], _ => rfl
          | [_], other => exact absurd rfl other
          | _ :: _ :: _, _ => rfl
  | unknownCommand hne other => exact ofText?_of_unknown split hne other

/-- The rules cover every first word and every rest. -/
theorem exists_reads (v r : List Char) : ∃ x, Reads v r x := by
  have has : HasWords r (words r) := words_eq_iff.1 rfl
  by_cases hnil : v = []
  · exact ⟨_, .empty hnil⟩
  by_cases known : ∃ verb : Verb, verb.Calls v
  · rcases known with ⟨verb, calls⟩
    by_cases takes : verb.Takes (words r).length
    · cases verb with
      | ping =>
          rw [List.length_eq_zero_iff.1 takes] at has
          exact ⟨_, .ping calls (List.dropWhile_eq_nil_iff.1 (has.eq_nil_iff.1 rfl))⟩
      | echo =>
          rcases blank_or_ink r with blank | ⟨b, c, t, blank, ink, parted⟩
          · rw [has.unique (.nil blank)] at takes
            exact absurd takes (Nat.lt_irrefl 0)
          · exact ⟨_, .echo calls blank ink parted⟩
      | longCalculation =>
          rcases List.length_eq_one_iff.1 takes with ⟨word, one⟩
          rw [one] at has
          rcases seconds?_cases word with ⟨n, spells, fits⟩ | tooLarge
          · exact ⟨_, .longCalculation calls has spells fits⟩
          · exact ⟨_, .notANumber calls has tooLarge⟩
    · exact ⟨_, .wrongArity calls has takes⟩
  · exact ⟨_, .unknownCommand hnil fun verb calls => known ⟨verb, calls⟩⟩

/-- A text is read as the rules say of its first word and the rest behind it. -/
theorem ofText?_eq_iff (split : Splits cs w v r) : ofText? cs = x ↔ Reads v r x := by
  constructor
  · rintro rfl
    rcases exists_reads v r with ⟨y, reads⟩
    rw [reads.ofText?_eq split]
    exact reads
  · intro reads
    exact reads.ofText?_eq split

theorem ofLine?_of_encode (same : Utf8.encode cs = Line.strip bs) : ofLine? bs = ofText? cs := by
  rw [ofLine?, Utf8.decode_eq_ok_iff.2 same]

/-- The reader reads exactly the grammar.  Every line is stripped to one byte string `s`; the line is
refused as no text exactly when `s` encodes none; and where it encodes a text, this splits in one
way, and the result is the one that the rules give to its first word and the rest. -/
theorem reads_exactly_its_grammar (bs : Bytes) :
    ∃ s, (∀ s', Line.IsStripped bs s' ↔ s' = s) ∧
      ((∃ f, ofLine? bs = .error (.notText f)) ↔ ¬Utf8.IsText s) ∧
      ∀ cs, Utf8.encode cs = s →
        ∃ w v r, (∀ w' v' r', Splits cs w' v' r' ↔ w' = w ∧ v' = v ∧ r' = r) ∧
          ∀ x, ofLine? bs = x ↔ Reads v r x := by
  refine ⟨Line.strip bs, fun s' => Line.isStripped_iff, ?_, ?_⟩
  · rw [← Utf8.exists_fault_iff]
    constructor
    · rintro ⟨f, refused⟩
      cases decoded : Utf8.decode (Line.strip bs) with
      | error f => exact ⟨f, rfl⟩
      | ok cs =>
          -- No text is refused as none.
          rw [ofLine?_of_encode (Utf8.decode_eq_ok_iff.1 decoded),
            ofText?_eq_iff (splits_trimStart cs)] at refused
          cases refused
    · rintro ⟨f, faulty⟩
      exact ⟨f, by rw [ofLine?, faulty]⟩
  · intro cs same
    refine ⟨_, _, _, fun w' v' r' => splits_iff, ?_⟩
    intro x
    rw [ofLine?_of_encode same]
    exact ofText?_eq_iff (splits_trimStart cs)

/-- An ideographic space leads a name in mixed case, and a no-break space ends it; the first of two
carriage returns belongs to the text. -/
theorem reads_exactly_its_grammar_echo :
    ofLine? [0xE3, 0x80, 0x80, 0x65, 0x43, 0x48, 0x6F, 0xC2, 0xA0, 0x09, 0x78, 0x20, 0x0D, 0x0D,
      0x0A] = .ok (.echo "x \r") := by
  obtain ⟨s, stripped, -, texts⟩ := reads_exactly_its_grammar [0xE3, 0x80, 0x80, 0x65, 0x43, 0x48,
    0x6F, 0xC2, 0xA0, 0x09, 0x78, 0x20, 0x0D, 0x0D, 0x0A]
  have same : Utf8.encode ['\u3000', 'e', 'C', 'H', 'o', '\u00A0', '\t', 'x', ' ', '\r'] = s := by
    refine (stripped _).1 ⟨[0xE3, 0x80, 0x80, 0x65, 0x43, 0x48, 0x6F, 0xC2, 0xA0, 0x09, 0x78, 0x20,
      0x0D, 0x0D], .inl rfl, .inl (by decide)⟩
  obtain ⟨w, v, r, splits, reads⟩ := texts _ same
  have split : Splits ['\u3000', 'e', 'C', 'H', 'o', '\u00A0', '\t', 'x', ' ', '\r'] ['\u3000']
      ['e', 'C', 'H', 'o'] ['\u00A0', '\t', 'x', ' ', '\r'] :=
    .of_all rfl rfl rfl rfl rfl
  obtain ⟨-, rfl, rfl⟩ := (splits _ _ _).1 split
  have calls : Verb.echo.Calls ['e', 'C', 'H', 'o'] := Verb.calls_iff.2 (by decide)
  have blank : ∀ c ∈ ['\u00A0', '\t'], isBlank c = true := List.all_eq_true.1 rfl
  exact (reads _).2 (.echo (t := [' ', '\r']) calls blank (show isInk 'x' = true from rfl) rfl)

end Request
end LineExchange
