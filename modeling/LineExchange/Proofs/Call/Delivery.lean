import LineExchange.Proofs.Call.Course
import LineExchange.Proofs.Client.Moves
import LineExchange.Proofs.Fairness
import LineExchange.Proofs.Text.OneLine

/-!
# Delivery — the text of an answer comes to the client that asked

A request goes to a server as a line, and a line comes back, in whatever pieces.  This file defines:

* `Call.toServer` — a call to a server that answers requests;
* `Call.Delivers` — in no run does the client report anything but a response with a text, once, and
  it reports that on every fair schedule.

A call with a payload that is a line is answered with one line of text, byte for byte, and delivers
that text; a request that reads back from its own line delivers the text of its answer
(`delivers_answer`).
-/

namespace LineExchange

namespace Link

variable {a : Call} {l l' : Link} {e : Event} {es : List Event}

/-! ## What the client of a call reports -/

theorem Coupled.reports_eq {t : Trip} {job : Job} {x : Option Exchange} (h : l.Coupled a t job x) :
    l.client.reports = a.reportsAt t :=
  h.calling.solo.reports

/-- The client reports nothing but the answer, and that once. -/
theorem OnCourse.reports (h : l.OnCourse a) :
    l.client.reports = [] ∨ l.client.reports = [a.report] := by
  rcases h with ⟨t, job, x, coupled⟩
  rw [coupled.reports_eq, Call.reportsAt]
  by_cases home : t.stage = .home
  · exact .inr (if_pos home)
  · exact .inl (if_neg home)

/-- No event of the call takes a report back. -/
theorem reports_isPrefix (step : step? a l e = some l') :
    l.client.reports <+: l'.client.reports := by
  have onClient {e' : Client.Event} {l' : Link} (step : l.onClient e' = some l') :
      l.client.reports <+: l'.client.reports := by
    rcases Option.map_eq_some_iff.1 step with ⟨c, moved, rfl⟩
    exact (Client.Move.of_step? moved).reports_isPrefix
  have onServer {e' : Exchanges.Event} {l' : Link} (step : l.onServer a e' = some l') :
      l.client.reports <+: l'.client.reports := by
    rcases Option.map_eq_some_iff.1 step with ⟨xs, -, rfl⟩
    exact List.prefix_rfl
  -- Bytes that come to the client are events of the client, and all others leave it alone.
  cases e with
  | enqueue => exact onClient step
  | connect ready => exact onClient step
  | step => exact onClient step
  | accept =>
      simp only [step?] at step
      split at step
      · exact onServer step
      · cases step
  | serve => exact onServer step
  | carry n =>
      simp only [step?] at step
      split at step
      · cases step
      · rcases Option.map_eq_some_iff.1 step with ⟨m, arrived, rfl⟩
        have kept := onServer arrived
        exact kept
  | bring n =>
      simp only [step?] at step
      split at step
      · cases step
      · rcases Option.map_eq_some_iff.1 step with ⟨m, arrived, rfl⟩
        have kept := onClient arrived
        exact kept
  | hangUp =>
      simp only [step?] at step
      split at step
      · rcases Option.map_eq_some_iff.1 step with ⟨m, arrived, rfl⟩
        have kept := onClient arrived
        exact kept
      · cases step

/-! ## Every event leaves less to do -/

theorem OnCourse.of_step? (sound : a.IsSound) (h : l.OnCourse a) (step : step? a l e = some l') :
    l'.OnCourse a ∧ (l' = l ∨ l'.left a < l.left a) := by
  rcases h with ⟨t, job, x, coupled⟩
  rcases coupled.advances_or_rests sound e with ⟨m, moved, onCourse, less⟩ | rests
  · obtain rfl : l' = m := Option.some.inj (step.symm.trans moved)
    exact ⟨onCourse, .inr less⟩
  · obtain rfl : l' = l := rests l' step
    exact ⟨⟨t, job, x, coupled⟩, .inl rfl⟩

theorem onCourse_of_run (sound : a.IsSound) (run : (machine a).run? (start a) es = some l) :
    l.OnCourse a := by
  refine Machine.run?_induction (motive := fun _ l => l.OnCourse a) (onCourse_start a) ?_ run
  intro es l l' e _ last onCourse
  exact (onCourse.of_step? sound last).1

/-- What is left to do falls until the client has reported the answer. -/
theorem ranking (sound : a.IsSound) :
    (machine a).Ranking Event.party? (·.OnCourse a) (·.client.reports = [a.report]) (·.left a) where
  keeps onCourse step := (onCourse.of_step? sound step).1
  falls onCourse step := (onCourse.of_step? sound step).2
  helps := by
    rintro l ⟨t, job, x, coupled⟩ unreported
    have out : t.stage ≠ .home := by
      intro home
      exact unreported (coupled.reports_eq.trans (if_pos home))
    -- A trip that is not home has somebody to go on, whatever way its events go.
    rcases coupled.exists_party sound out with ⟨p, advances⟩
    refine ⟨p, ?_⟩
    intro e mine
    rcases advances e mine with ⟨l', step, -, less⟩
    exact ⟨l', step, less⟩
  stays := by
    intro l l' e onCourse reported step
    have kept := reports_isPrefix step
    rw [reported] at kept
    -- A report is never taken back, and there is no second one.
    rcases (onCourse.of_step? sound step).1.reports with hnone | reported'
    · rw [hnone] at kept
      exact absurd kept.length_le (by simp)
    · exact reported'

end Link

/-! ## The answer comes -/

namespace Call

def toServer (threads : Nat) (id : UInt32) (endpoint : Endpoint) (up down : List Uptake)
    (payload : Bytes) : Call :=
  ⟨threads, id, endpoint, payload, answerLine, up, down⟩

def reportOf (a : Call) (s : String) : Report :=
  ⟨0, a.id, .response s, none⟩

/-- In no run does the client report anything but a response with the text `s`, and that once; and
it has reported that, from some point on, on every schedule on which each party comes again and
again. -/
structure Delivers (a : Call) (s : String) : Prop where
  only : ∀ {es : List Link.Event} {l : Link}, (Link.machine a).run? (Link.start a) es = some l →
    l.client.reports = [] ∨ l.client.reports = [a.reportOf s]
  eventually : ∀ {schedule : Nat → Link.Event}, Machine.IsFair Link.Event.party? schedule →
    ∃ n, ∀ i, n ≤ i →
      ((Link.machine a).follow (Link.start a) schedule i).client.reports = [a.reportOf s]

theorem delivers_of_isSound {a : Call} (sound : a.IsSound) :
    a.Delivers (Trip.responseText a.answer) where
  only run := (Link.onCourse_of_run sound run).reports
  eventually fair := (Link.ranking sound).eventually (Link.onCourse_start a) fair

variable {threads : Nat} {id : UInt32} {endpoint : Endpoint} {up down : List Uptake}

/-- A call to a server delivers the text of the answer to its payload. -/
theorem delivers_of_isLine (upGentle : ∀ u ∈ up, u.IsGentle) (downGentle : ∀ u ∈ down, u.IsGentle)
    {payload : Bytes} (line : Line.IsLine Line.delimiter payload)
    (payloadFits : payload.length ≤ Inbox.capacity)
    (answerFits : (answerLine payload).length ≤ Inbox.capacity) :
    (toServer threads id endpoint up down payload).Delivers (answerTo payload).display := by
  have sound : (toServer threads id endpoint up down payload).IsSound :=
    ⟨line, payloadFits, isLine_answerLine line, answerFits, upGentle, downGentle⟩
  have text : Trip.responseText (answerLine payload) = (answerTo payload).display :=
    responseText_line (answerTo payload)
  exact text ▸ delivers_of_isSound sound

/-- On a connection that fails at nothing, however it cuts what goes over it: a payload whose only
delimiter is its last byte is answered with the UTF-8 of a text and a delimiter, if both fit in an
inbox, and the call delivers that text; and the line of a request that reads back from it, and that
echoes no line feed, delivers the text of the answer to that request. -/
theorem delivers_answer (upGentle : ∀ u ∈ up, u.IsGentle) (downGentle : ∀ u ∈ down, u.IsGentle) :
    (∀ payload : Bytes, Line.IsLine Line.delimiter payload → payload.length ≤ Inbox.capacity →
      (answerLine payload).length ≤ Inbox.capacity →
      ∃ s : String, Utf8.ofString s ++ [Line.delimiter] = answerLine payload ∧
        (toServer threads id endpoint up down payload).Delivers s) ∧
      ∀ r : Request, Request.ofLine? r.line = .ok r → (∀ t, r = .echo t → Text.IsOneLine t) →
        r.line.length ≤ Inbox.capacity → (answerLine r.line).length ≤ Inbox.capacity →
        (toServer threads id endpoint up down r.line).Delivers r.answer.display := by
  constructor
  · intro payload line payloadFits answerFits
    exact ⟨(answerTo payload).display, rfl,
      delivers_of_isLine upGentle downGentle line payloadFits answerFits⟩
  · intro r readsBack oneLine lineFits answerFits
    -- The server reads what the client meant.
    have answer : answerTo r.line = r.answer := by simp only [answerTo, readsBack]
    have delivers :
        (toServer threads id endpoint up down r.line).Delivers (answerTo r.line).display :=
      delivers_of_isLine upGentle downGentle (Request.isLine_line oneLine) lineFits answerFits
    exact answer ▸ delivers

def turns (i : Nat) : Link.Event :=
  match i % 7 with
  | 0 => .enqueue
  | 1 => .connect true
  | 2 => .step
  | 3 => .accept
  | 4 => .serve
  | 5 => .carry 1
  | _ => .bring 0

theorem isFair_turns : Machine.IsFair Link.Event.party? turns := by
  intro p n
  cases p with
  | loop => exact ⟨7 * n, by omega, by simp [turns, Link.Event.party?]⟩
  | network => exact ⟨7 * n + 1, by omega, by simp [turns, Link.Event.party?]⟩
  | client => exact ⟨7 * n + 2, by omega, by simp [turns, Link.Event.party?]⟩
  | listener => exact ⟨7 * n + 3, by omega, by simp [turns, Link.Event.party?]⟩
  | server => exact ⟨7 * n + 4, by omega, by simp [turns, Link.Event.party?]⟩
  | onward => exact ⟨7 * n + 5, by omega, by simp [turns, Link.Event.party?]⟩
  | homeward => exact ⟨7 * n + 6, by omega, by simp [turns, Link.Event.party?]⟩

/-- A stream that takes less than a character at a time, and makes one write wait. -/
def choppy : List Uptake :=
  [.atMost 6, .blocked, .atMost 1, .atMost 2]

def greeting : Request :=
  .echo "é 😀"

/-- A line that ends in the middle of a character. -/
def garbled : Bytes :=
  [69, 195, 13, 10]

def choppyCall (payload : Bytes) : Call :=
  toServer 1 7 (.v4 ⟨127, 0, 0, 1⟩ 7000) choppy choppy payload

theorem delivers_of_choppyCall :
    (∀ u ∈ choppy, u.IsGentle) ∧ Request.ofLine? greeting.line = .ok greeting ∧
      Machine.IsFair Link.Event.party? turns ∧
      (∃ n, ∀ i, n ≤ i →
        ((Link.machine (choppyCall greeting.line)).follow (Link.start (choppyCall greeting.line))
          turns i).client.reports = [⟨0, 7, .response "é 😀", none⟩]) ∧
      Line.IsLine Line.delimiter garbled ∧
      ∃ s : String, Utf8.ofString s ++ [Line.delimiter] = answerLine garbled ∧
        (choppyCall garbled).Delivers s := by
  have gentle : ∀ u ∈ choppy, u.IsGentle := by simp [choppy, Uptake.IsGentle]
  have readsBack : Request.ofLine? greeting.line = .ok greeting := by decide +kernel
  have isLine : Line.IsLine Line.delimiter garbled := ⟨[69, 195, 13], rfl, by decide⟩
  have delivers : (choppyCall greeting.line).Delivers "é 😀" := by
    refine (delivers_answer gentle gentle).2 greeting readsBack ?_ ?_ ?_
    · intro t same
      cases same
      decide
    · decide +kernel
    · decide +kernel
  refine ⟨gentle, readsBack, isFair_turns, delivers.eventually isFair_turns, isLine, ?_⟩
  exact (delivers_answer gentle gentle).1 garbled isLine (by decide) (by decide +kernel)

end Call
end LineExchange
