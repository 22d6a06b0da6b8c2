import LineExchange.Proofs.Channel.Agreement
import LineExchange.Proofs.Request.Grammar
import LineExchange.Proofs.Text.OneLine

/-!
# Answer size — how long an answer is, and who can read it

A server reads request lines up to a limit, and a client reads answers up to the same limit.  A
refusal quotes what it refuses, so an answer may be longer than its request.  This file defines:

* `Channel.Gets`, `Patient.Gets` — what a reader's first read comes to, however its bytes are cut.

An answer to a line within the limit is within the limit as well, and every client gets it, unless
it quotes an unknown command that leaves no room for the words around it
(`answer_fits_or_quotes_long_name`).
-/

namespace LineExchange

/-! ## Sizes of texts -/

namespace Utf8

variable {cs : List Char} {n k : Nat} {f : Fault} {bs : Bytes}

theorem ofString_append (s t : String) : ofString (s ++ t) = ofString s ++ ofString t := by
  simp [ofString]

theorem ofString_ofList (cs : List Char) : ofString (String.ofList cs) = encode cs := by
  rw [ofString, String.toList_ofList]

/-- No character is encoded with nothing. -/
theorem length_le_length_encode (cs : List Char) : cs.length ≤ (encode cs).length := by
  induction cs with
  | nil => exact Nat.le_refl 0
  | cons c cs ih =>
      have hpos : 0 < (String.utf8EncodeChar c).length :=
        List.length_pos_of_ne_nil String.utf8EncodeChar_ne_nil
      rw [encode_cons, List.length_append, List.length_cons]
      omega

theorem length_encode_digits (digits : ∀ c ∈ cs, c.isDigit = true) :
    (encode cs).length = cs.length := by
  induction cs with
  | nil => rfl
  | cons c cs ih =>
      have digit := Numeral.isDigit_iff_range.1 (digits c List.mem_cons_self)
      have one : c.utf8Size = 1 := by
        rw [Char.utf8Size_eq_one_iff, UInt32.le_iff_toNat_le]
        exact Nat.le_trans digit.2 (by decide)
      have later := ih fun d mem => digits d (List.mem_cons_of_mem c mem)
      rw [encode_cons, List.length_append, String.length_utf8EncodeChar, one, later,
        List.length_cons, Nat.add_comm]

/-- A number is written in as many bytes as it has digits. -/
theorem length_ofString_toString (n : Nat) :
    (ofString (toString n)).length = (Nat.toDigits 10 n).length := by
  have digits : ∀ c ∈ Nat.toDigits 10 n, c.isDigit = true :=
    fun c mem => Nat.isDigit_of_mem_toDigits (by decide) (by decide) mem
  rw [Nat.toString_eq_repr, Nat.repr, ofString_ofList, length_encode_digits digits]

/-- The text of a fault takes at most fifty bytes, if it stands within a hundred thousand. -/
theorem length_message_le (faulty : decode bs = .error f) (short : bs.length < 100000) :
    (ofString f.message).length ≤ 50 := by
  rcases fault_spec faulty with ⟨cs, tail, split, index, width⟩
  have lengths := congrArg List.length split
  rw [List.length_append] at lengths
  have place : (Nat.toDigits 10 f.index).length ≤ 5 :=
    (Nat.length_toDigits_le_iff (by decide) (by decide)).2 (by omega)
  rcases f with ⟨i, w⟩
  rcases width with ⟨n, rest, start, rfl⟩ | ⟨-, rfl⟩
  · have few := width_of_head_broken start
    have number : (Nat.toDigits 10 n).length ≤ 1 :=
      (Nat.length_toDigits_le_iff (by decide) (by decide)).2 (by omega)
    have words : (ofString (toString "invalid utf-8 sequence of ")).length = 26 := by decide
    have words' : (ofString (toString " bytes from index ")).length = 18 := by decide
    simp only [Fault.message, ofString_append, List.length_append, length_ofString_toString, words,
      words']
    simp only at place
    omega
  · have words : (ofString (toString "incomplete utf-8 byte sequence from index ")).length = 42 := by
      decide
    simp only [Fault.message, ofString_append, List.length_append, length_ofString_toString, words]
    simp only at place
    omega

end Utf8

/-! ## Sizes of answers -/

namespace Request

open Text

variable {p : Bytes} {cs w v r : List Char} {name : String} {x : Except Refusal Request}

/-- What is read of a line is shorter by its delimiter at least. -/
theorem length_strip_lt (isLine : Line.IsLine Line.delimiter p) :
    (Line.strip p).length < p.length := by
  rcases isLine with ⟨body, rfl, -⟩
  have shorter : (Line.dropLast Line.carriageReturn body).length ≤ body.length := by
    rw [Line.dropLast]
    split
    · rw [List.length_dropLast]
      exact Nat.sub_le _ _
    · exact Nat.le_refl _
  rw [Line.strip, Line.dropLast_concat, List.length_append]
  exact Nat.lt_succ_of_le shorter

/-- The text of a line splits, and its first word and the rest come to what is read. -/
theorem exists_reads_ofLine? (same : Utf8.encode cs = Line.strip p) :
    ∃ w v r, Splits cs w v r ∧ Reads v r (ofLine? p) := by
  have split := splits_trimStart cs
  refine ⟨_, _, _, split, ?_⟩
  rw [ofLine?_of_encode same]
  exact (ofText?_eq_iff split).1 rfl

theorem length_encode_of_splits (split : Splits cs w v r) :
    (Utf8.encode cs).length =
      (Utf8.encode w).length + (Utf8.encode v).length + (Utf8.encode r).length := by
  rw [← split.whole, Utf8.encode_append, Utf8.encode_append, List.length_append, List.length_append]

/-- The only word of the rest behind a first word takes one byte less than it, for the blank. -/
theorem length_encode_word_lt {word : List Char} (split : Splits cs w v r)
    (one : HasWords r [word]) : (Utf8.encode word).length < (Utf8.encode r).length := by
  cases one with
  | @cons _ b _ after _ inner hne _ =>
      have sizes := length_encode_of_splits inner
      have blank : b ≠ [] := by
        rintro rfl
        rcases List.exists_cons_of_ne_nil hne with ⟨c, rest, rfl⟩
        have first : c ∈ r.head? := by
          rw [← inner.whole]
          rfl
        have ink := inner.ink c List.mem_cons_self
        rw [isInk_iff, split.ends c first] at ink
        cases ink
      have space := Utf8.length_le_length_encode b
      have positive := List.length_pos_of_ne_nil blank
      omega

/-- How many bytes the text of a refusal takes. -/
theorem Refusal.length_message (e : Refusal) :
    (Utf8.ofString e.message).length =
      match e with
      | .empty => 13
      | .notText f => 15 + (Utf8.ofString f.message).length
      | .unknownCommand n => 18 + (Utf8.ofString n).length
      | .wrongArity v => 32 + (Utf8.ofString v.name).length
      | .notANumber w => 17 + (Utf8.ofString w).length := by
  have quote : (Utf8.ofString "'").length = 1 := by decide
  cases e with
  | empty =>
      have words : (Utf8.ofString "empty request").length = 13 := by decide
      exact words
  | notText f =>
      have words : (Utf8.ofString "invalid UTF-8: ").length = 15 := by decide
      show (Utf8.ofString ("invalid UTF-8: " ++ f.message)).length = _
      rw [Utf8.ofString_append, List.length_append, words]
  | unknownCommand n =>
      have words : (Utf8.ofString "unknown command '").length = 17 := by decide
      show (Utf8.ofString ("unknown command '" ++ n ++ "'")).length = 18 + _
      simp only [Utf8.ofString_append, List.length_append, words, quote]
      omega
  | wrongArity v =>
      have words : (Utf8.ofString "wrong number of arguments for '").length = 31 := by decide
      show (Utf8.ofString ("wrong number of arguments for '" ++ v.name ++ "'")).length = 32 + _
      simp only [Utf8.ofString_append, List.length_append, words, quote]
      omega
  | notANumber w =>
      have words : (Utf8.ofString "invalid integer: ").length = 17 := by decide
      show (Utf8.ofString ("invalid integer: " ++ w)).length = _
      rw [Utf8.ofString_append, List.length_append, words]

theorem length_answerLine_of_ok {r : Request} (read : ofLine? p = .ok r) :
    (answerLine p).length = (Utf8.ofString r.answer.display).length + 1 := by
  rw [answerLine, answerTo, read, Response.line, List.length_append]
  rfl

theorem length_answerLine_of_error {e : Refusal} (refused : ofLine? p = .error e) :
    (answerLine p).length = (Utf8.ofString e.message).length + 5 := by
  have mark : (Utf8.ofString "ERR ").length = 4 := by decide
  rw [answerLine, answerTo, refused, Response.line, List.length_append, Response.display,
    Utf8.ofString_append, List.length_append, mark, List.length_singleton]
  omega

/-- A refusal that quotes an unknown command has 23 bytes besides it. -/
theorem length_answerLine_of_unknown (unknown : ofLine? p = .error (.unknownCommand name)) :
    (answerLine p).length = (Utf8.ofString name).length + 23 := by
  rw [length_answerLine_of_error unknown, Refusal.length_message]
  simp only
  omega

/-- An answer that quotes no unknown command is not longer than its line, or short. -/
theorem length_answerLine_le (isLine : Line.IsLine Line.delimiter p) (short : p.length < 100000)
    (known : ∀ name, ofLine? p ≠ .error (.unknownCommand name)) :
    (answerLine p).length ≤ max p.length 70 := by
  have less := length_strip_lt isLine
  cases decoded : Utf8.decode (Line.strip p) with
  | error f =>
      have refused : ofLine? p = .error (.notText f) := by rw [ofLine?, decoded]
      have few := Utf8.length_message_le decoded (by omega)
      rw [length_answerLine_of_error refused, Refusal.length_message]
      simp only
      omega
  | ok cs =>
      have same := Utf8.decode_eq_ok_iff.1 decoded
      rcases exists_reads_ofLine? same with ⟨w, v, r, split, reads⟩
      have sizes := length_encode_of_splits split
      rw [same] at sizes
      generalize read : ofLine? p = x at reads
      cases reads with
      | empty =>
          rw [length_answerLine_of_error read, Refusal.length_message]
          simp only
          omega
      | ping =>
          have word : (Utf8.ofString (answer .ping).display).length = 4 := by decide
          rw [length_answerLine_of_ok read, word]
          omega
      | @echo b t c calls blank ink parted =>
          -- The text stands in the line, behind the command.
          have part : (Utf8.encode (c :: t)).length ≤ (Utf8.encode r).length := by
            rw [← parted, Utf8.encode_append, List.length_append]
            exact Nat.le_add_left _ _
          rw [length_answerLine_of_ok read, answer, Response.display, Utf8.ofString_ofList]
          omega
      | longCalculation =>
          have word : (Utf8.ofString Response.done.display).length = 2 := by decide
          rw [length_answerLine_of_ok read, answer, word]
          omega
      | @notANumber word calls one =>
          -- The name of the command and the blank behind it make room for the words around.
          have blank := length_encode_word_lt split one
          have letters := Utf8.length_le_length_encode v
          have command : v.length = 20 := calls.length_eq
          rw [length_answerLine_of_error read, Refusal.length_message]
          simp only [Utf8.ofString_ofList]
          omega
      | @wrongArity verb =>
          have few : (Utf8.ofString verb.name).length ≤ 20 := by cases verb <;> decide
          rw [length_answerLine_of_error read, Refusal.length_message]
          simp only
          omega
      | unknownCommand => exact absurd read (known _)

end Request

/-! ## Readers -/

namespace Line

variable {d : UInt8} {limit : Nat} {line line' rest rest' : Bytes}
  {result : Except ChannelError Bytes}

/-- A line within the limit is given out by every reader. -/
theorem Outcome.eq_ok (outcome : Outcome d limit (line ++ rest) result rest')
    (isLine : IsLine d line) (short : line.length ≤ Inbox.capacity) : result = .ok line := by
  cases result with
  | ok line' =>
      cases outcome with
      | line isLine' split => rw [isLine.eq_of_append isLine' split]
  | error e =>
      have said := outcome.verdicts_of_error
      rw [verdicts_append isLine short] at said
      cases (List.cons.inj said).1

/-- A line beyond the limit is refused by a reader that gives out no longer ones. -/
theorem Outcome.eq_full (outcome : Outcome d (Inbox.capacity + 1) (line ++ rest) result rest')
    (isLine : IsLine d line) (long : Inbox.capacity < line.length) :
    result = .error .bufferFull := by
  cases result with
  | ok line' =>
      cases outcome with
      | line isLine' split short =>
          rw [isLine.eq_of_append isLine' split] at short
          omega
  | error e =>
      have said := outcome.verdicts_of_error
      rw [verdicts_of_long isLine long] at said
      exact congrArg Except.error (Except.error.inj (List.cons.inj said).1).symm

end Line

/-- The first read of a channel of the bytes `bs`, in pieces of any sizes and then the end, comes
to `result`. -/
def Channel.Gets (bs : Bytes) (result : Except ChannelError Bytes) : Prop :=
  ∀ (l : Latch) (signal : Signal) (wire : Wire) (pieces : List Bytes), l.raised = false →
    wire.arrivals = Arrival.script pieces → pieces.flatten = bs →
    (∀ piece ∈ pieces, piece ≠ []) →
    (Channel.read l Line.delimiter (.ofWire wire signal)).2 = some result

/-- The first read of a patient reader of the bytes `bs`, in pieces of any sizes and then the end,
comes to `result`. -/
def Patient.Gets (bs : Bytes) (result : Except ChannelError Bytes) : Prop :=
  ∀ chunks : List Bytes, chunks.flatten = bs → (∀ chunk ∈ chunks, chunk ≠ []) →
    (Patient.readLine Line.delimiter (.ofArrivals (Arrival.script chunks))).2 = some result

section Readers

variable {line bs : Bytes}

/-- A patient reader's first read comes to what it may. -/
theorem Patient.exists_outcome {chunks : List Bytes} (cut : chunks.flatten = bs)
    (hne : ∀ chunk ∈ chunks, chunk ≠ []) :
    ∃ result rest,
      (readLine Line.delimiter (.ofArrivals (Arrival.script chunks))).2 = some result ∧
        Line.Outcome Line.delimiter (Inbox.capacity + 1) bs result rest := by
  have expecting : Expecting bs (.ofArrivals (Arrival.script chunks)) :=
    ⟨chunks, hne, rfl, cut⟩
  rcases readLine_settles Line.delimiter bs _ expecting with ⟨result, rest, came, outcome, -⟩
  exact ⟨result, rest, came, outcome⟩

/-- Every patient reader reads a line within the limit, whatever comes behind it. -/
theorem Patient.gets_line (isLine : Line.IsLine Line.delimiter line)
    (short : line.length ≤ Inbox.capacity) (rest : Bytes) :
    Patient.Gets (line ++ rest) (.ok line) := by
  intro chunks cut hne
  rcases exists_outcome cut hne with ⟨result, left, came, outcome⟩
  rw [came, outcome.eq_ok isLine short]

/-- A patient reader refuses a line beyond the limit, whatever comes behind it. -/
theorem Patient.gets_full (isLine : Line.IsLine Line.delimiter line)
    (long : Inbox.capacity < line.length) (rest : Bytes) :
    Patient.Gets (line ++ rest) (.error .bufferFull) := by
  intro chunks cut hne
  rcases exists_outcome cut hne with ⟨result, left, came, outcome⟩
  rw [came, outcome.eq_full isLine long]

/-- Every channel reads a line within the limit, whatever comes behind it. -/
theorem Channel.gets_line (isLine : Line.IsLine Line.delimiter line)
    (short : line.length ≤ Inbox.capacity) (rest : Bytes) :
    Channel.Gets (line ++ rest) (.ok line) := by
  intro l signal wire pieces unraised script cut hne
  -- Nothing is known of the sizes of the pieces but that none is longer than all of them together.
  have small : ∀ piece ∈ pieces, piece ≠ [] ∧ piece.length ≤ (line ++ rest).length := by
    intro piece mem
    have within : piece.length ≤ pieces.flatten.length :=
      (List.sublist_flatten_of_mem mem).length_le
    rw [cut] at within
    exact ⟨hne piece mem, within⟩
  have expecting : Expecting _ Line.delimiter (line ++ rest) (ofWire wire signal) :=
    ⟨List.not_mem_nil, Nat.zero_lt_succ _, Nat.zero_le _, pieces, small, script, cut⟩
  rcases read_settles unraised _ _ expecting with ⟨result, left, came, outcome, -⟩
  rw [came, outcome.eq_ok isLine short]

end Readers

namespace Request

open Text

variable {p : Bytes}

/-! ## Lines that are one word -/

theorem encode_letters (n : Nat) : Utf8.encode (List.replicate n 'a') = List.replicate n 97 := by
  induction n with
  | zero => rfl
  | succ n ih =>
      rw [List.replicate_succ, Utf8.encode_cons, ih]
      rfl

theorem isLine_letters (n : Nat) :
    Line.IsLine Line.delimiter (List.replicate n 97 ++ [Line.delimiter]) := by
  refine ⟨List.replicate n 97, rfl, ?_⟩
  intro mem
  cases (List.mem_replicate.1 mem).2

/-- A word of letters is no command if it is longer than all of their names. -/
theorem ofLine?_letters {n : Nat} (long : 20 < n) :
    ofLine? (List.replicate n 97 ++ [Line.delimiter]) =
      .error (.unknownCommand (String.ofList (List.replicate n 'a'))) := by
  have ink : ∀ c ∈ List.replicate n 'a', isInk c = true := by
    intro c mem
    rw [(List.mem_replicate.1 mem).2]
    decide
  have stripped : Utf8.encode (List.replicate n 'a') =
      Line.strip (List.replicate n 97 ++ [Line.delimiter]) := by
    apply Line.isStripped_iff.1
    refine ⟨List.replicate n 97, .inl rfl, ?_⟩
    rw [encode_letters]
    refine IsWithoutLast.of_not_mem ?_
    intro mem
    cases (List.mem_replicate.1 mem).2
  have split : Splits (List.replicate n 'a') [] (List.replicate n 'a') [] :=
    { whole := List.append_nil _
      blank := by simp
      ink := ink
      leads := by
        intro c first
        rw [List.append_nil] at first
        exact ink c (List.mem_of_mem_head? first)
      ends := by simp }
  rw [ofLine?_of_encode stripped, ofText?_eq_iff split]
  refine .unknownCommand ?_ ?_
  · intro hnone
    have empty := congrArg List.length hnone
    rw [List.length_replicate, List.length_nil] at empty
    omega
  · intro verb calls
    have same := calls.length_eq
    -- No command has so long a name.
    have few : verb.name.toList.length ≤ 20 := by cases verb <;> decide
    rw [List.length_replicate] at same
    omega

theorem length_answerLine_letters {n : Nat} (long : 20 < n) :
    (answerLine (List.replicate n 97 ++ [Line.delimiter])).length = n + 23 := by
  rw [length_answerLine_of_unknown (ofLine?_letters long), Utf8.ofString_ofList, encode_letters,
    List.length_replicate]

/-! ## Answers to lines within the limit -/

/-- The answer to a line within the limit is within the limit as well, and every client gets it,
whatever comes behind it and however it is cut into pieces; unless it quotes an unknown command
with which the 23 bytes besides it do not fit, so that a patient client finds the line too long. -/
theorem answer_fits_or_quotes_long_name (isLine : Line.IsLine Line.delimiter p)
    (short : p.length ≤ Inbox.capacity) :
    ((answerLine p).length ≤ Inbox.capacity ↔
      ∀ name, ofLine? p = .error (.unknownCommand name) →
        (Utf8.ofString name).length + 23 ≤ Inbox.capacity) ∧
    (∀ name, ofLine? p = .error (.unknownCommand name) →
      (answerLine p).length = (Utf8.ofString name).length + 23) ∧
    ((answerLine p).length ≤ Inbox.capacity → ∀ rest,
      Channel.Gets (answerLine p ++ rest) (.ok (answerLine p)) ∧
        Patient.Gets (answerLine p ++ rest) (.ok (answerLine p))) ∧
    (Inbox.capacity < (answerLine p).length → ∀ rest,
      Patient.Gets (answerLine p ++ rest) (.error .bufferFull)) := by
  have isLine' := isLine_answerLine isLine
  refine ⟨?_, fun name => length_answerLine_of_unknown, ?_, ?_⟩
  · constructor
    · intro fits name unknown
      rwa [length_answerLine_of_unknown unknown] at fits
    · intro names
      -- Only an unknown command makes an answer so much longer than its line.
      by_cases known : ∃ name, ofLine? p = .error (.unknownCommand name)
      · rcases known with ⟨name, unknown⟩
        rw [length_answerLine_of_unknown unknown]
        exact names name unknown
      · have bound : p.length < 100000 := Nat.lt_of_le_of_lt short (by decide)
        calc
          (answerLine p).length ≤ max p.length 70 :=
            length_answerLine_le isLine bound fun name unknown => known ⟨name, unknown⟩
          _ ≤ Inbox.capacity := Nat.max_le.2 ⟨short, by decide⟩
  · intro fits rest
    exact ⟨Channel.gets_line isLine' fits rest, Patient.gets_line isLine' fits rest⟩
  · intro long rest
    exact Patient.gets_full isLine' long rest

/-- The longest name that is quoted within the limit. -/
theorem longest_name_fits :
    let p : Bytes := List.replicate 65513 97 ++ [Line.delimiter]
    Line.IsLine Line.delimiter p ∧ p.length ≤ Inbox.capacity ∧
      (answerLine p).length = Inbox.capacity ∧
      ∀ rest, Channel.Gets (answerLine p ++ rest) (.ok (answerLine p)) ∧
        Patient.Gets (answerLine p ++ rest) (.ok (answerLine p)) := by
  intro p
  have isLine : Line.IsLine Line.delimiter p := isLine_letters 65513
  have short : p.length ≤ Inbox.capacity := by
    rw [List.length_append, List.length_replicate]
    decide
  have whole : (answerLine p).length = Inbox.capacity := length_answerLine_letters (by decide)
  rcases answer_fits_or_quotes_long_name isLine short with ⟨-, -, gets, -⟩
  exact ⟨isLine, short, whole, gets (Nat.le_of_eq whole)⟩

/-- The refusal of a line at the limit is beyond it: the whole line is one unknown command. -/
theorem refusal_exceeds_limit :
    let p : Bytes := List.replicate 65535 97 ++ [Line.delimiter]
    Line.IsLine Line.delimiter p ∧ p.length ≤ Inbox.capacity ∧
      ¬(answerLine p).length ≤ Inbox.capacity := by
  intro p
  have beyond : (answerLine p).length = 65535 + 23 := length_answerLine_letters (by decide)
  refine ⟨isLine_letters 65535, ?_, ?_⟩
  · rw [List.length_append, List.length_replicate]
    decide
  · rw [beyond]
    decide

end Request

end LineExchange
