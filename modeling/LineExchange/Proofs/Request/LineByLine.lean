import LineExchange.Proofs.Channel.Framing
import LineExchange.Proofs.Text.Decoding
import LineExchange.Proofs.Text.OneLine

/-!
# Line by line — as many answers as requests, in the same order

A client that sends several requests tells the answers apart by nothing but their delimiters, and
an answer may quote what the client sent.  This file proves:

* `Utf8.decode_line` — the line of a response is text;
* `Line.splitOn_flatMap` — lines that stand one behind the other are split where they were joined;
* `Channel.single_of_lines` — what a channel gives out as a line has one delimiter.

So the answers to requests that have no delimiter but at their end are one line each, and their
concatenation falls into these lines (`answers_line_by_line`).
-/

namespace LineExchange

/-- The line of a response is text: what the response reads as, and a line feed. -/
theorem Utf8.decode_line (r : Response) : decode r.line = .ok (r.display.toList ++ ['\n']) := by
  apply decode_eq_ok_iff.2
  calc
    encode (r.display.toList ++ ['\n']) = ofString r.display ++ encode ['\n'] :=
      encode_append _ _
    _ = ofString r.display ++ [Line.delimiter] := rfl

/-- Parts without a delimiter, each with one behind it, are the parts again when they are split. -/
theorem Line.splitOn_flatMap {α : Type} {d : UInt8} {part : α → Bytes} {xs : List α}
    (free : ∀ x ∈ xs, d ∉ part x) :
    (xs.flatMap fun x => part x ++ [d]).splitOn d = xs.map part ++ [[]] := by
  induction xs with
  | nil => rfl
  | cons x xs ih =>
      have first : d ∉ part x := free x List.mem_cons_self
      have others : ∀ y ∈ xs, d ∉ part y := fun y mem => free y (List.mem_cons_of_mem x mem)
      calc
        ((x :: xs).flatMap fun x => part x ++ [d]).splitOn d
            = (part x ++ d :: xs.flatMap fun x => part x ++ [d]).splitOn d := by simp
        _ = part x :: (xs.flatMap fun x => part x ++ [d]).splitOn d :=
          List.splitOn_append_cons_self_of_not_mem first _
        _ = (x :: xs).map part ++ [[]] := by simp [ih others]

/-- A line that a channel gives out has its delimiter nowhere but at its end. -/
theorem Channel.single_of_lines {d : UInt8} {steps : List Channel.Step} {line : Bytes}
    (watches : Bool) (only : ∀ d', Channel.Step.start (.read d') ∈ steps → d' = d)
    (mem : line ∈ lines (.start watches) steps) : d ∉ line.dropLast := by
  have frames := runFrames_of_clean (clean_start d watches) only
  exact (frames.isLine line mem).not_mem_dropLast

/-- Requests that have no delimiter, or one as their last byte, as every line has that a channel
reads: each is answered with the bytes of a text and a delimiter, which is the only one and the last
byte, and these bytes are text themselves; and the answers, one behind the other, are split at
the delimiter into the texts of the answers, one for each request and in their order, and nothing
is left behind the last. -/
theorem answers_line_by_line :
    (∀ requests : List Bytes, (∀ p ∈ requests, Line.delimiter ∉ p.dropLast) →
      (∀ p ∈ requests, ∃ text : String, answerLine p = Utf8.ofString text ++ [Line.delimiter] ∧
        Line.delimiter ∉ Utf8.ofString text ∧
        Utf8.decode (answerLine p) = .ok (text.toList ++ ['\n'])) ∧
      (requests.flatMap answerLine).splitOn Line.delimiter =
        (requests.map fun p => Utf8.ofString (answerTo p).display) ++ [[]]) ∧
    ∀ (watches : Bool) (steps : List Channel.Step),
      (∀ d, Channel.Step.start (.read d) ∈ steps → d = Line.delimiter) →
      ∀ p ∈ Channel.lines (.start watches) steps, Line.delimiter ∉ p.dropLast := by
  constructor
  · intro requests single
    have free : ∀ p ∈ requests, Line.delimiter ∉ Utf8.ofString (answerTo p).display := by
      intro p mem
      exact Utf8.not_mem_of_isOneLine (isOneLine_answerTo (single p mem))
    constructor
    · intro p mem
      exact ⟨(answerTo p).display, rfl, free p mem, Utf8.decode_line (answerTo p)⟩
    · exact Line.splitOn_flatMap free
  · intro watches steps only p mem
    exact Channel.single_of_lines watches only mem

/-- A line that ends in two bytes, one that is no text, and one without its end. -/
def mixedRequests : List Bytes :=
  [[112, 105, 110, 103, 13, 10], [69, 255, 10], [106, 117, 109, 112]]

theorem answers_of_mixedRequests :
    (∀ p ∈ mixedRequests, Line.delimiter ∉ p.dropLast) ∧
      (mixedRequests.flatMap answerLine).splitOn Line.delimiter =
        [Utf8.ofString "PONG",
          Utf8.ofString "ERR invalid UTF-8: invalid utf-8 sequence of 1 bytes from index 1",
          Utf8.ofString "ERR unknown command 'jump'", []] ∧
      (∀ d, Channel.Step.start (.read d) ∈ Channel.choppyRun → d = Line.delimiter) ∧
      ∀ p ∈ Channel.lines (.start true) Channel.choppyRun, Line.delimiter ∉ p.dropLast := by
  have single : ∀ p ∈ mixedRequests, Line.delimiter ∉ p.dropLast := by decide
  have only : ∀ d, Channel.Step.start (.read d) ∈ Channel.choppyRun → d = Line.delimiter := by
    simp [Channel.choppyRun, Line.delimiter]
  refine ⟨single, ?_, only, answers_line_by_line.2 true Channel.choppyRun only⟩
  rw [(answers_line_by_line.1 mixedRequests single).2]
  decide +kernel

end LineExchange
