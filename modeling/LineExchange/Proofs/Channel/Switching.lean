import LineExchange.Proofs.Channel.Framing

/-!
# Switching — reads for one delimiter after another

A channel looks at every byte once, whatever it looks for, until it gives out a line.  So a read for
another delimiter passes over what an earlier read has left in the inbox.  This file defines:

* `Channel.State.Untouched` — a state in which nothing is in the inbox that was looked at;
* `Channel.EndsLine` — runs that end with a line, or have not begun.

A line that is given out is the shortest part of what was there that ends in the delimiter behind
the bytes that were looked at (`line_is_first_behind_looked_at`); it has the delimiter once exactly
when these bytes have none, as they always have while all reads look for the same
(`isLine_of_same_delimiter`).  A delimiter that an earlier read passed over is not found any more
(`not_always_first_delimiter`).
-/

namespace LineExchange
namespace Channel

/-- Nothing was looked at that is still in the inbox, and nothing is in flight. -/
structure State.Untouched (s : State) : Prop where
  seen : s.channel.inbox.seen = []
  flight : s.flight = none

/-- The steps are none, or the last of them gives out a line. -/
def EndsLine (s : State) (steps : List Step) : Prop :=
  steps = [] ∨ ∃ (before : List Step) (a : Step) (line : Bytes),
    steps = before ++ [a] ∧ (step (run s before).1 a).2.line? = some line

variable {d : UInt8} {s s₀ : State} {a : Step} {c : Channel} {line : Bytes}

theorem State.Untouched.clean (untouched : s.Untouched) (d : UInt8) : s.Clean d where
  seen := by simp [untouched.seen]
  flight d' wait flying := by cases untouched.flight.symm.trans flying

theorem untouched_start (watches : Bool) : (State.start watches).Untouched :=
  ⟨rfl, rfl⟩

/-! ## Steps -/

/-- Only a step that polls a read gives out a line. -/
theorem exists_sought_of_line (shown : (step s a).2.line? = some line) :
    ∃ d, s.sought? a = some d := by
  cases sought : s.sought? a with
  | some d => exact ⟨d, rfl⟩
  | none => cases (still_step sought).line.symm.trans shown

/-- A line begins with the bytes that were looked at, and is behind them a line for what the step
looks for; with what is then in the inbox it makes up what was there and what came; and nothing is
left that was looked at. -/
theorem line_spec (shown : (step s a).2.line? = some line) :
    ∃ d behind, s.sought? a = some d ∧ line = s.channel.inbox.seen.reverse ++ behind ∧
      Line.IsLine d behind ∧
      line ++ (step s a).1.channel.inbox.bytes = s.channel.inbox.bytes ++ s.delivers a ∧
      (step s a).1.Untouched := by
  rcases exists_sought_of_line shown with ⟨d, sought⟩
  rcases searches_step sought with ⟨s₀, c, r, got, stepped, searches, delivers⟩
  rw [stepped] at shown
  have result := (settleRead_spec s₀ d c r).2.2.1 line shown
  subst result
  rcases searches.line line rfl with ⟨nothing, behind, parts, isLine⟩
  refine ⟨d, behind, sought, parts, isLine, ?_, ?_⟩
  · rw [stepped, delivers]
    exact searches.bytes
  · rw [stepped]
    exact ⟨nothing, rfl⟩

/-! ## Runs -/

/-- Behind a line nothing is left that was looked at. -/
theorem untouched_of_endsLine {watches : Bool} {steps : List Step}
    (ends : EndsLine (.start watches) steps) : (run (.start watches) steps).1.Untouched := by
  rcases ends with rfl | ⟨before, a, line, rfl, shown⟩
  · exact untouched_start watches
  · rcases line_spec shown with ⟨d, behind, -, -, -, -, untouched⟩
    rw [run_append]
    exact untouched

/-- A read for the delimiter that every read has looked for since the last line gives out a line. -/
theorem isLine_of_same_delimiter {watches : Bool} {p q : List Step}
    (ends : EndsLine (.start watches) p) (only : ∀ d', Step.start (.read d') ∈ q → d' = d)
    (sought : (run (.start watches) (p ++ q)).1.sought? a = some d)
    (shown : (step (run (.start watches) (p ++ q)).1 a).2.line? = some line) :
    Line.IsLine d line := by
  have untouched := untouched_of_endsLine ends
  have clean := (runFrames_of_clean (untouched.clean d) only).clean
  rw [← run_append] at clean
  rcases line_spec shown with ⟨d', behind, sought', rfl, isLine, -, -⟩
  cases sought'.symm.trans sought
  exact isLine.append_left (by simpa using clean.seen)

/-- In every run of a channel, whatever its reads look for: a line that a step gives out is, with
what is then in the inbox, what was in the inbox and what the stream delivered; it is the shortest
part from the start that ends in the delimiter the step looks for behind the bytes that were looked
at before, so it has that delimiter nowhere but at its end exactly when these bytes have none; and
they have none if all reads since the last line looked for the same. -/
theorem line_is_first_behind_looked_at {before : List Step} (watches : Bool)
    (shown : (step (run (.start watches) before).1 a).2.line? = some line) :
    let s := (run (.start watches) before).1
    let looked := s.channel.inbox.bytes.take s.channel.inbox.scanned
    ∃ d, s.sought? a = some d ∧
      line ++ (step s a).1.channel.inbox.bytes = s.channel.inbox.bytes ++ s.delivers a ∧
      (∃ body, line = looked ++ (body ++ [d]) ∧ d ∉ body) ∧
      ((∃ body, line = body ++ [d] ∧ d ∉ body) ↔ d ∉ looked) ∧
      ∀ p q, before = p ++ q → EndsLine (.start watches) p →
        (∀ d', Step.start (.read d') ∈ q → d' = d) → d ∉ looked := by
  intro s looked
  rcases line_spec shown with ⟨d, behind, sought, parts, isLine, bytes, -⟩
  rw [← Inbox.take_scanned] at parts
  have once : Line.IsLine d line ↔ d ∉ looked := by
    constructor
    · intro whole
      -- A delimiter that was looked at would stand before the last one.
      have single : d ∉ line.dropLast := Line.IsLine.not_mem_dropLast whole
      rcases isLine with ⟨body, rfl, -⟩
      rw [parts, ← List.append_assoc, List.dropLast_concat] at single
      exact fun mem => single (List.mem_append_left body mem)
    · intro free
      rw [parts]
      exact isLine.append_left free
  refine ⟨d, sought, bytes, ?_, once, ?_⟩
  · rcases isLine with ⟨body, rfl, free⟩
    exact ⟨body, parts, free⟩
  · rintro p q rfl ends only
    exact once.1 (isLine_of_same_delimiter ends only sought shown)

/-- `a;b` comes, and a read for the line feed looks at it in vain. -/
def hidingRun : List Step :=
  [.change (.feed 3 [97, 59, 98]), .start (.read 10), .abandon, .change (.feed 2 [99, 59, 100])]

/-- A read for the semicolon gives out all of it and more, and another read is to follow. -/
def switchedRun : List Step :=
  hidingRun ++ [.start (.read 59)] ++ [.change (.feed 1 [59])]

theorem lines_of_switchedRun :
    (∃ body : Bytes, (step (run (.start true) hidingRun).1 (.start (.read 59))).2.line? =
        some ([97, 59, 98] ++ (body ++ [59])) ∧ 59 ∉ body) ∧
      (step (run (.start true) switchedRun).1 (.start (.read 59))).2.line? = some [100, 59] ∧
      ∃ body : Bytes, [100, 59] = body ++ [59] ∧ 59 ∉ body := by
  have hidden : (step (run (.start true) hidingRun).1 (.start (.read 59))).2.line? =
      some [97, 59, 98, 99, 59] := by decide +kernel
  have found : (step (run (.start true) switchedRun).1 (.start (.read 59))).2.line? =
      some [100, 59] := by decide +kernel
  have looked : (run (.start true) hidingRun).1.channel.inbox.bytes.take
      (run (.start true) hidingRun).1.channel.inbox.scanned = [97, 59, 98] := by decide +kernel
  rcases line_is_first_behind_looked_at true hidden with ⟨d, sought, -, ⟨body, parts, free⟩, -⟩
  cases sought
  rw [looked] at parts
  rcases line_is_first_behind_looked_at true found with ⟨d, sought, -, -, once, same⟩
  cases sought
  -- Behind the line that the first read gave out, nothing was looked for.
  have ends : EndsLine (.start true) (hidingRun ++ [.start (.read 59)]) :=
    .inr ⟨hidingRun, _, _, rfl, hidden⟩
  have free' := same _ _ rfl ends (by simp)
  exact ⟨⟨body, by rw [hidden, parts], free⟩, found, once.2 free'⟩

/-- The delimiter may stand in a line before its end. -/
theorem not_always_first_delimiter :
    ¬∀ (watches : Bool) (before : List Step) (a : Step) (d : UInt8) (line : Bytes),
      (run (.start watches) before).1.sought? a = some d →
      (step (run (.start watches) before).1 a).2.line? = some line →
      ∃ body, line = body ++ [d] ∧ d ∉ body := by
  intro always
  have shown : (step (run (.start true) hidingRun).1 (.start (.read 59))).2.line? =
      some [97, 59, 98, 99, 59] := by decide +kernel
  have once : 59 ∉ ([97, 59, 98, 99, 59] : Bytes).dropLast :=
    Line.IsLine.not_mem_dropLast (always true hidingRun _ 59 _ rfl shown)
  revert once
  decide

end Channel
end LineExchange
