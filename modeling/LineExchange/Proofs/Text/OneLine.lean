import LineExchange.Client.Trip
import LineExchange.Proofs.Channel.Reading
import LineExchange.Proofs.Text.Encoding
import LineExchange.Response

/-!
# One line — requests and answers that hold no line feed make lines

A text makes a line of the protocol if it has no line feed.  This file defines:

* `Text.IsOneLine` — a text without a line feed.

Whatever line a server is asked with, the text of its answer is one line, whether it answers a
request or refuses one (`isOneLine_answerTo`); so its bytes end with their only delimiter, and the
text that a client makes of them is the text itself (`responseText_line`).
-/

namespace LineExchange

namespace Text

def IsOneLine (s : String) : Prop :=
  '\n' ∉ s.toList

instance (s : String) : Decidable (IsOneLine s) :=
  inferInstanceAs (Decidable ('\n' ∉ s.toList))

theorem isOneLine_append {s t : String} :
    IsOneLine (s ++ t) ↔ IsOneLine s ∧ IsOneLine t := by
  simp [IsOneLine, not_or]

/-- A word has no blank, and a line feed is one. -/
theorem isOneLine_of_ink {cs : List Char} (ink : cs.all isInk = true) :
    IsOneLine (String.ofList cs) := by
  intro mem
  rw [String.toList_ofList] at mem
  have inked := List.all_eq_true.1 ink '\n' mem
  revert inked
  decide

/-- A number is written in digits. -/
theorem isOneLine_toString (n : Nat) : IsOneLine (toString n) := by
  intro mem
  rw [Nat.toString_eq_repr, Nat.repr, String.toList_ofList] at mem
  have digit := Nat.isDigit_of_mem_toDigits (by decide) (by decide) mem
  revert digit
  decide

theorem all_isInk_firstWord (cs : List Char) : (firstWord cs).all isInk = true :=
  List.all_takeWhile

theorem all_isInk_of_mem_wordsFrom {done : List (List Char)} {cs word : List Char}
    (before : ∀ word ∈ done, word.all isInk = true) (mem : word ∈ wordsFrom done cs) :
    word.all isInk = true := by
  fun_induction wordsFrom done cs with
  | case1 done cs => exact before word (List.mem_reverse.1 mem)
  | case2 done cs c r found ih =>
      refine ih ?_ mem
      intro word' mem'
      rcases List.mem_cons.1 mem' with rfl | old
      · exact all_isInk_firstWord _
      · exact before word' old

theorem all_isInk_of_mem_words {cs word : List Char} (mem : word ∈ words cs) :
    word.all isInk = true :=
  all_isInk_of_mem_wordsFrom (by simp) mem

end Text

namespace Line

/-- Nothing of a delimiter is left when the last byte alone could be one. -/
theorem delimiter_not_mem_strip {bs : Bytes} (single : delimiter ∉ bs.dropLast) :
    delimiter ∉ strip bs := by
  have cut : delimiter ∉ dropLast delimiter bs := by
    rcases List.eq_nil_or_concat bs with rfl | ⟨front, b, rfl⟩
    · exact List.not_mem_nil
    · rw [List.concat_eq_append] at single ⊢
      have free : delimiter ∉ front := by simpa using single
      by_cases last : b = delimiter
      · simpa [dropLast, last] using free
      · simpa [dropLast, last, free] using Ne.symm last
  intro mem
  apply cut
  rw [strip, dropLast] at mem
  split at mem
  · exact List.dropLast_subset _ mem
  · exact mem

end Line

open Text

/-! ## Requests -/

namespace Request

variable {bs : Bytes} {cs : List Char} {r : Request} {refusal : Refusal}

/-- An echoed text is a part of the line. -/
theorem mem_of_ofText? {t : String} {c : Char} (read : ofText? cs = .ok (.echo t))
    (mem : c ∈ t.toList) : c ∈ cs := by
  simp only [ofText?] at read
  split at read
  · cases read
  · split at read
    · rename_i v _
      cases v with
      | ping =>
          simp only [ofVerb?] at read
          split at read <;> cases read
      | echo =>
          simp only [ofVerb?] at read
          split at read <;> cases read
          rw [String.toList_ofList] at mem
          -- Only blanks and the command stand before it.
          have inRest := List.dropWhile_suffix _ |>.subset mem
          have inBody := List.dropWhile_suffix _ |>.subset inRest
          exact List.dropWhile_suffix _ |>.subset inBody
      | longCalculation =>
          simp only [ofVerb?] at read
          split at read
          · split at read <;> cases read
          · cases read
    · cases read

/-- A text is refused with a word of its own, or with none. -/
theorem refusal_of_ofText? (refused : ofText? cs = .error refusal) :
    refusal = .empty ∨ (∃ v, refusal = .wrongArity v) ∨
      ∃ word : List Char, word.all isInk = true ∧
        (refusal = .unknownCommand (String.ofList word) ∨
          refusal = .notANumber (String.ofList word)) := by
  simp only [ofText?] at refused
  split at refused
  · cases refused
    exact .inl rfl
  · split at refused
    · rename_i v _
      cases v with
      | ping =>
          simp only [ofVerb?] at refused
          split at refused <;> cases refused
          exact .inr (.inl ⟨_, rfl⟩)
      | echo =>
          simp only [ofVerb?] at refused
          split at refused <;> cases refused
          exact .inr (.inl ⟨_, rfl⟩)
      | longCalculation =>
          simp only [ofVerb?] at refused
          split at refused
          · rename_i word single
            split at refused <;> cases refused
            have ink : word.all isInk = true := by
              apply all_isInk_of_mem_words
              rw [single]
              exact List.mem_singleton_self word
            exact .inr (.inr ⟨word, ink, .inr rfl⟩)
          · cases refused
            exact .inr (.inl ⟨_, rfl⟩)
    · cases refused
      exact .inr (.inr ⟨_, all_isInk_firstWord _, .inl rfl⟩)

theorem isOneLine_name (v : Verb) : IsOneLine v.name := by
  cases v <;> decide

theorem isOneLine_fault (f : Utf8.Fault) : IsOneLine f.message := by
  rcases f with ⟨i, _ | n⟩
  · have text : IsOneLine (toString "incomplete utf-8 byte sequence from index ") := by decide
    exact isOneLine_append.2 ⟨text, isOneLine_toString i⟩
  · have before : IsOneLine (toString "invalid utf-8 sequence of ") := by decide
    have between : IsOneLine (toString " bytes from index ") := by decide
    simp only [Utf8.Fault.message, isOneLine_append]
    exact ⟨⟨⟨before, isOneLine_toString n⟩, between⟩, isOneLine_toString i⟩

theorem isOneLine_message (refused : ofLine? bs = .error refusal) : IsOneLine refusal.message := by
  have quote : IsOneLine "'" := by decide
  simp only [ofLine?] at refused
  split at refused
  · rcases refusal_of_ofText? refused with rfl | ⟨v, rfl⟩ | ⟨word, ink, rfl | rfl⟩
    · have text : IsOneLine "empty request" := by decide
      exact text
    · have text : IsOneLine "wrong number of arguments for '" := by decide
      exact isOneLine_append.2 ⟨isOneLine_append.2 ⟨text, isOneLine_name v⟩, quote⟩
    · have text : IsOneLine "unknown command '" := by decide
      exact isOneLine_append.2 ⟨isOneLine_append.2 ⟨text, isOneLine_of_ink ink⟩, quote⟩
    · have text : IsOneLine "invalid integer: " := by decide
      exact isOneLine_append.2 ⟨text, isOneLine_of_ink ink⟩
  · rename_i f _
    cases refused
    have text : IsOneLine "invalid UTF-8: " := by decide
    exact isOneLine_append.2 ⟨text, isOneLine_fault f⟩

/-- The text of a request is one line if the text that it echoes is. -/
theorem isOneLine_text (oneLine : ∀ t, r = .echo t → IsOneLine t) : IsOneLine r.text := by
  have space : IsOneLine " " := by decide
  cases r with
  | ping => exact isOneLine_name .ping
  | echo t =>
      exact isOneLine_append.2
        ⟨isOneLine_append.2 ⟨isOneLine_name .echo, space⟩, oneLine t rfl⟩
  | longCalculation p =>
      exact isOneLine_append.2
        ⟨isOneLine_append.2 ⟨isOneLine_name .longCalculation, space⟩, isOneLine_toString _⟩

end Request

/-! ## Answers -/

/-- Whatever line it is asked with, and were it without its end, the text of an answer is one
line. -/
theorem isOneLine_answerTo {bs : Bytes} (single : Line.delimiter ∉ bs.dropLast) :
    IsOneLine (answerTo bs).display := by
  simp only [answerTo]
  split
  · rename_i r read
    cases r with
    | ping =>
        show IsOneLine "PONG"
        decide
    | longCalculation p =>
        show IsOneLine "OK"
        decide
    | echo t =>
        intro mem
        simp only [Request.ofLine?] at read
        split at read
        · rename_i cs decoded
          -- A line feed of the text would be one of the line, before its delimiter.
          have inLine := Request.mem_of_ofText? read mem
          rcases Utf8.mem_of_decode decoded inLine (by decide) (by decide) with ⟨b, inBytes, same⟩
          have feed : b = Line.delimiter := UInt8.toNat_inj.1 same
          exact Line.delimiter_not_mem_strip single (feed ▸ inBytes)
        · cases read
  · rename_i refusal refused
    have mark : IsOneLine "ERR " := by decide
    exact isOneLine_append.2 ⟨mark, Request.isOneLine_message refused⟩

/-! ## Lines -/

namespace Utf8

/-- The bytes of one line of text have no delimiter. -/
theorem not_mem_of_isOneLine {s : String} (oneLine : IsOneLine s) :
    Line.delimiter ∉ ofString s := by
  intro mem
  exact oneLine (mem_encode_ascii mem (by decide))

/-- One line of text, with the delimiter behind it, is a line. -/
theorem isLine_of_isOneLine {s : String} (oneLine : IsOneLine s) :
    Line.IsLine Line.delimiter (ofString s ++ [Line.delimiter]) :=
  ⟨ofString s, rfl, not_mem_of_isOneLine oneLine⟩

end Utf8

theorem Request.isLine_line {r : Request} (oneLine : ∀ t, r = .echo t → IsOneLine t) :
    Line.IsLine Line.delimiter r.line :=
  Utf8.isLine_of_isOneLine (isOneLine_text oneLine)

theorem isLine_answerLine {bs : Bytes} (line : Line.IsLine Line.delimiter bs) :
    Line.IsLine Line.delimiter (answerLine bs) :=
  Utf8.isLine_of_isOneLine (isOneLine_answerTo line.not_mem_dropLast)

/-- What a client makes of the line of a response is what the response reads as. -/
theorem responseText_line (r : Response) : Trip.responseText r.line = r.display := by
  have cut : Line.dropLast Line.delimiter r.line = Utf8.ofString r.display := by
    simp [Line.dropLast, Response.line]
  rw [Trip.responseText, cut, Utf8.ofString, Utf8.decodeLossy_encode, String.ofList_toList]

end LineExchange
