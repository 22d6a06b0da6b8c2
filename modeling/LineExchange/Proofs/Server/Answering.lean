import LineExchange.Proofs.Channel.Posting
import LineExchange.Proofs.Channel.Scanning
import LineExchange.Proofs.Server.Separation

/-!
# Answering — an exchange answers the first line of its input

One exchange reads a line, calls the responder on it, and writes what the responder says.  This
file defines, for one exchange with its own acts:

* `Line.first?` — the first line of a byte string;
* `Exchange.input` — the bytes that arrived, or will, on its connection;
* `Exchange.call?` and `Exchange.taken?` — the line on which an act calls the responder, and how
  many bytes the stream takes in a write;
* `Exchange.Unsent` and `Exchange.Answered` — nothing was sent and nobody called; or the responder
  was called once, on the first line of the input, and as much of its answer was sent as was taken;
* `Exchange.Accords` — which of these holds at each stage.

Every act keeps `Accords` (`Accords.of_act`), so it holds after every run (`accords_of_run`).
-/

namespace LineExchange

namespace Line

variable {d : UInt8} {bs line : Bytes}

def first? (d : UInt8) (bs : Bytes) : Option Bytes :=
  (cut? d bs).map Prod.fst

theorem first?_append (isLine : IsLine d line) (rest : Bytes) :
    first? d (line ++ rest) = some line := by
  rw [first?, cut?_of_isLine isLine]
  rfl

theorem first?_eq_some_iff : first? d bs = some line ↔ IsLine d line ∧ line <+: bs := by
  constructor
  · intro found
    rcases Option.map_eq_some_iff.1 found with ⟨⟨head, rest⟩, cut, rfl⟩
    exact ⟨isLine_of_cut? cut, rest, append_of_cut? cut⟩
  · rintro ⟨isLine, rest, rfl⟩
    exact first?_append isLine rest

/-- What comes behind the first line does not change it. -/
theorem first?_of_isPrefix {more : Bytes} (found : first? d bs = some line) (part : bs <+: more) :
    first? d more = some line := by
  rcases first?_eq_some_iff.1 found with ⟨isLine, before⟩
  exact first?_eq_some_iff.2 ⟨isLine, before.trans part⟩

end Line

namespace Wire

def Taken.count (bs : Bytes) : Taken → Nat
  | .left rest => bs.length - rest.length
  | .blocked | .failed _ => 0

/-- The bytes that a write took were sent, and the others are left. -/
theorem take_spec (w : Wire) (bs : Bytes) :
    (w.take bs).1.sent = w.sent ++ bs.take ((w.take bs).2.count bs) ∧
      ∀ rest, (w.take bs).2 = .left rest → rest = bs.drop ((w.take bs).2.count bs) := by
  rcases w with ⟨arrivals, uptakes, flushes, sent⟩
  cases uptakes with
  | nil => simp [take, Taken.count]
  | cons u us =>
      cases u with
      | atMost n =>
          simp only [take, takeSome]
          split
          · simp [Taken.count]
          · -- More bytes may be allowed than there are.
            have count : bs.length - (bs.drop n).length = min n bs.length := by
              rw [List.length_drop]
              omega
            simp only [Taken.count, count, ← List.take_eq_take_min, ← List.drop_eq_drop_min]
            refine ⟨trivial, ?_⟩
            rintro rest ⟨⟩
            rfl
      | blocked => simp [take, Taken.count]
      | failure e =>
          simp only [take, takeFailure]
          split <;> simp [Taken.count]

end Wire

namespace Channel

/-- What the channel took off the script `script` is in its inbox, where no delimiter was seen. -/
structure HasRead (script : List Arrival) (c : Channel) : Prop where
  clean : Line.delimiter ∉ c.inbox.seen
  split : ∃ past, script = past ++ c.wire.arrivals ∧ c.inbox.bytes = past.flatMap Arrival.bytes

namespace HasRead

variable {script : List Arrival} {c c' : Channel}

theorem expect (h : HasRead script c) (a : Arrival) :
    HasRead (script ++ [a]) { c with wire := c.wire.expect a } := by
  rcases h with ⟨clean, past, rfl, bytes⟩
  exact ⟨clean, past, by simp [Wire.expect], bytes⟩

/-- A line that a search finds is the first of all that arrives, sooner or later. -/
theorem offer {o : Inbox.Offer} (h : HasRead script c)
    (offered : c.offer Line.delimiter = (c', o)) :
    c'.wire = c.wire ∧ (o = .more → HasRead script c') ∧
      ∀ line, o = .line line →
        Line.first? Line.delimiter (script.flatMap Arrival.bytes) = some line := by
  rcases h with ⟨clean, past, rfl, bytes⟩
  cases found : c.inbox.offer Line.delimiter with
  | mk i o' =>
      rcases Inbox.offer_spec clean found with ⟨kept, clean', lines⟩
      simp only [Channel.offer, found, Prod.mk.injEq] at offered
      rcases offered with ⟨rfl, rfl⟩
      refine ⟨rfl, ?_, ?_⟩
      · rintro rfl
        exact ⟨clean', past, rfl, by rw [← bytes]; exact kept⟩
      · rintro line rfl
        have whole : line ++ i.bytes = past.flatMap Arrival.bytes := bytes ▸ kept
        rw [List.flatMap_append, ← whole, List.append_assoc]
        exact Line.first?_append (lines line rfl) _

theorem await {l : Latch} {wait : Wait} {r : Awaited} (h : HasRead script c)
    (awaited : c.await l wait = (c', r)) : HasRead script c' := by
  rcases h with ⟨clean, past, rfl, bytes⟩
  rcases await_spec awaited with ⟨got, ⟨next, arrivals, rfl⟩, inbox⟩
  refine ⟨by rw [inbox]; exact clean, past ++ next, by rw [arrivals, List.append_assoc], ?_⟩
  rw [inbox, Inbox.bytes_push, bytes, List.flatMap_append]

end HasRead
end Channel

namespace Exchange

/-! ## What is seen of one exchange -/

def Act.arrival? : Act → Option Arrival
  | .arrive a => some a
  | _ => none

/-- What arrived, or will, on the connection `w` with the acts `as`. -/
def script (w : Wire) (as : List Act) : List Arrival :=
  w.arrivals ++ as.filterMap Act.arrival?

def input (w : Wire) (as : List Act) : Bytes :=
  (script w as).flatMap Arrival.bytes

/-- The line on which an act calls the responder, whether it answers or fails. -/
def call? (x : Exchange) : Act → Option Bytes
  | .step | .crash =>
      match x.stage with
      | .answering line => some line
      | _ => none
  | _ => none

def taken? (x : Exchange) : Act → Option Nat
  | .step =>
      match x.stage with
      | .writing _ (b :: bs) => some ((x.channel.wire.take (b :: bs)).2.count (b :: bs))
      | _ => none
  | _ => none

def result? (x : Exchange) : Option Result :=
  match x.stage with
  | .ending r | .finished r => some r
  | _ => none

/-- Nothing was sent, and the responder was not called. -/
structure Unsent (w : Wire) (calls : List Bytes) (taken : List Nat) (x : Exchange) : Prop where
  sent : x.sent = w.sent
  calls : calls = []
  taken : taken = []

/-- The responder was called once, on the line that is the first of the arrivals, and what was sent
is as much of its answer as the stream took. -/
structure Answered (p : Responder) (w : Wire) (arrivals : List Arrival) (calls : List Bytes)
    (taken : List Nat) (line : Bytes) (x : Exchange) : Prop where
  first : Line.first? Line.delimiter (arrivals.flatMap Arrival.bytes) = some line
  calls : calls = [line]
  sent : x.sent = w.sent ++ (p line).take taken.sum

/-- Which of these holds when the result is known. -/
def Result.Accords (p : Responder) (w : Wire) (arrivals : List Arrival) (calls : List Bytes)
    (taken : List Nat) (x : Exchange) : Result → Prop
  | .success => ∃ line, x.Answered p w arrivals calls taken line ∧ (p line).length ≤ taken.sum
  | .failure (.read _) => x.Unsent w calls taken
  | .failure (.write _) | .crashed | .dropped =>
      x.Unsent w calls taken ∨ ∃ line, x.Answered p w arrivals calls taken line

/-- Which of these holds at each stage. -/
def Accords (p : Responder) (w : Wire) (arrivals : List Arrival) (calls : List Bytes)
    (taken : List Nat) (x : Exchange) : Prop :=
  match x.stage with
  | .searching | .awaiting _ => x.Unsent w calls taken ∧ x.channel.HasRead arrivals
  | .answering line =>
      x.Unsent w calls taken ∧
        Line.first? Line.delimiter (arrivals.flatMap Arrival.bytes) = some line
  | .writing response rest =>
      ∃ line, x.Answered p w arrivals calls taken line ∧ response = p line ∧
        rest = (p line).drop taken.sum
  | .ending r | .finished r => r.Accords p w arrivals calls taken x

variable {p : Responder} {w : Wire} {arrivals : List Arrival} {calls : List Bytes}
  {taken : List Nat} {line : Bytes} {x x' : Exchange} {a : Act}

theorem Unsent.congr (h : x.Unsent w calls taken) (sent : x'.sent = x.sent) :
    x'.Unsent w calls taken :=
  ⟨sent.trans h.sent, h.calls, h.taken⟩

/-- The responder is called on a line, and nothing of its answer was sent. -/
theorem Unsent.answered (h : x.Unsent w calls taken) (sent : x'.sent = x.sent)
    (first : Line.first? Line.delimiter (arrivals.flatMap Arrival.bytes) = some line) :
    x'.Answered p w arrivals (calls ++ [line]) taken line := by
  rcases h with ⟨before, rfl, rfl⟩
  exact ⟨first, rfl, by simp [sent, before]⟩

theorem Answered.congr {more : List Arrival} (h : x.Answered p w arrivals calls taken line)
    (sent : x'.sent = x.sent) (grown : arrivals <+: more) :
    x'.Answered p w more calls taken line := by
  rcases grown with ⟨next, rfl⟩
  refine ⟨Line.first?_of_isPrefix h.first ?_, h.calls, sent.trans h.sent⟩
  rw [List.flatMap_append]
  exact List.prefix_append _ _

theorem Result.Accords.congr {more : List Arrival} {r : Result}
    (h : r.Accords p w arrivals calls taken x) (sent : x'.sent = x.sent)
    (grown : arrivals <+: more) : r.Accords p w more calls taken x' := by
  have either (h : x.Unsent w calls taken ∨ ∃ line, x.Answered p w arrivals calls taken line) :
      x'.Unsent w calls taken ∨ ∃ line, x'.Answered p w more calls taken line := by
    rcases h with unsent | ⟨line, answered⟩
    · exact .inl (unsent.congr sent)
    · exact .inr ⟨line, answered.congr sent grown⟩
  cases r with
  | success =>
      rcases h with ⟨line, answered, whole⟩
      exact ⟨line, answered.congr sent grown, whole⟩
  | failure e =>
      cases e with
      | read e => exact Unsent.congr h sent
      | write e => exact either h
  | crashed => exact either h
  | dropped => exact either h

/-! ## Every act -/

theorem accords_start (p : Responder) (w : Wire) : (start w).Accords p w w.arrivals [] [] :=
  ⟨⟨rfl, rfl, rfl⟩, List.not_mem_nil, [], rfl, rfl⟩

/-- Only the script of the stream grows. -/
theorem Accords.onWire {f : Wire → Wire} {more : List Arrival}
    (h : x.Accords p w arrivals calls taken) (sent : (f x.channel.wire).sent = x.channel.wire.sent)
    (script : (f x.channel.wire).arrivals = x.channel.wire.arrivals ++ more) :
    (x.onWire f).Accords p w (arrivals ++ more) calls taken := by
  have grown : arrivals <+: arrivals ++ more := List.prefix_append _ _
  have same : (x.onWire f).sent = x.sent := sent
  rcases x with ⟨channel, stage⟩
  have read (h : channel.HasRead arrivals) :
      { channel with wire := f channel.wire }.HasRead (arrivals ++ more) := by
    rcases h with ⟨clean, past, rfl, bytes⟩
    exact ⟨clean, past, by rw [script, List.append_assoc], bytes⟩
  cases stage with
  | searching => exact ⟨h.1.congr same, read h.2⟩
  | awaiting => exact ⟨h.1.congr same, read h.2⟩
  | answering line =>
      refine ⟨h.1.congr same, Line.first?_of_isPrefix h.2 ?_⟩
      rw [List.flatMap_append]
      exact List.prefix_append _ _
  | writing response rest =>
      rcases h with ⟨line, answered, whole, rest⟩
      exact ⟨line, answered.congr same grown, whole, rest⟩
  | ending r => exact Result.Accords.congr h same grown
  | finished r => exact Result.Accords.congr h same grown

theorem accords_searchStep {c : Channel} (t : Traffic)
    (unsent : Unsent w calls taken ⟨c, .searching⟩) (read : c.HasRead arrivals) :
    (searchStep ⟨c, .searching⟩ t).1.Accords p w arrivals calls taken := by
  cases offered : c.offer Line.delimiter with
  | mk c' o =>
      rcases read.offer offered with ⟨wire, still, first⟩
      have sent : c'.wire.sent = c.wire.sent := congrArg Wire.sent wire
      simp only [searchStep, offered]
      cases o with
      | line line => exact ⟨unsent.congr sent, first line rfl⟩
      | full => exact unsent.congr sent
      | more => exact ⟨unsent.congr sent, still rfl⟩

theorem accords_awaitStep {c : Channel} {stage : Stage} (wait : Wait)
    (unsent : Unsent w calls taken ⟨c, stage⟩) (read : c.HasRead arrivals) :
    (awaitStep ⟨c, stage⟩ wait).Accords p w arrivals calls taken := by
  cases awaited : c.await .never wait with
  | mk c' r =>
      have still := read.await awaited
      have sent : c'.wire.sent = c.wire.sent := by
        rw [Channel.wire_await awaited]
        rfl
      simp only [awaitStep, awaited]
      cases r with
      | arrived => exact ⟨unsent.congr sent, still⟩
      | pending wait => exact ⟨unsent.congr sent, still⟩
      | failed e => exact unsent.congr sent

/-- The flush behind the last write, or a write, of which the stream takes `taken?`. -/
theorem accords_writeStep {c : Channel} {rest : Bytes} (t : Traffic)
    (answered : Answered p w arrivals calls taken line ⟨c, .writing (p line) rest⟩)
    (left : rest = (p line).drop taken.sum) :
    (writeStep ⟨c, .writing (p line) rest⟩ (p line) rest t).1.Accords p w arrivals calls
      (taken ++ (taken? ⟨c, .writing (p line) rest⟩ .step).toList) := by
  cases rest with
  | nil =>
      -- Nothing is left, so all of the answer was taken, and flushing sends no more.
      have whole : (p line).length ≤ taken.sum := List.drop_eq_nil_iff.1 left.symm
      have sent : c.wire.flush.1.sent = c.wire.sent := by
        unfold Wire.flush
        split <;> rfl
      simp only [taken?, Option.toList_none, List.append_nil, writeStep]
      split
      · rename_i flushed
        rw [flushed] at sent
        exact ⟨line, answered.congr sent List.prefix_rfl, whole⟩
      · rename_i flushed
        rw [flushed] at sent
        exact .inr ⟨line, answered.congr sent List.prefix_rfl⟩
  | cons b bs =>
      rcases c.wire.take_spec (b :: bs) with ⟨sent, hleft⟩
      have now (stage : Stage) : Answered p w arrivals calls
          (taken ++ [(c.wire.take (b :: bs)).2.count (b :: bs)]) line
          ⟨{ c with wire := (c.wire.take (b :: bs)).1 }, stage⟩ := by
        refine ⟨answered.first, answered.calls, ?_⟩
        have before : c.wire.sent = w.sent ++ (p line).take taken.sum := answered.sent
        rw [List.sum_append, List.sum_singleton, List.take_add, ← left, ← List.append_assoc,
          ← before]
        exact sent
      simp only [taken?, Option.toList_some, writeStep]
      cases took : c.wire.take (b :: bs) with
      | mk w' r =>
          rw [took] at hleft now
          cases r with
          | left rest =>
              refine ⟨line, now _, rfl, ?_⟩
              rw [List.sum_append, List.sum_singleton, ← List.drop_drop, ← left]
              exact hleft rest rfl
          | blocked => exact ⟨line, now _, rfl, by simpa [Wire.Taken.count] using left⟩
          | failed e => exact .inr ⟨line, now _⟩

/-- Every act keeps to what holds at each stage. -/
theorem Accords.of_act (h : x.Accords p w arrivals calls taken) (act : x.act? p a = some x') :
    x'.Accords p w (arrivals ++ a.arrival?.toList) (calls ++ (x.call? a).toList)
      (taken ++ (x.taken? a).toList) := by
  cases a with
  | arrive a =>
      cases act
      simpa [call?, taken?] using h.onWire rfl rfl
  | allow u =>
      cases act
      simpa [call?, taken?] using h.onWire rfl (List.append_nil _).symm
  | failFlush e =>
      cases act
      simpa [call?, taken?] using h.onWire rfl (List.append_nil _).symm
  | step =>
      rcases x with ⟨c, stage⟩
      cases stage with
      | searching =>
          cases act
          simpa [Act.arrival?, call?, taken?] using accords_searchStep .zero h.1 h.2
      | awaiting wait =>
          cases act
          simpa [Act.arrival?, call?, taken?] using accords_awaitStep wait h.1 h.2
      | answering line =>
          cases act
          -- The responder is asked here, once, and nothing was sent before.
          rcases h with ⟨unsent, first⟩
          have answered : Answered p w arrivals (calls ++ [line]) taken line
              ⟨c, .writing (p line) (p line)⟩ := unsent.answered rfl first
          have hnone : taken.sum = 0 := by rw [unsent.taken, List.sum_nil]
          simp only [Act.arrival?, call?, taken?, Option.toList_none, Option.toList_some,
            List.append_nil]
          exact ⟨line, answered, rfl, by rw [hnone, List.drop_zero]⟩
      | writing response rest =>
          rcases h with ⟨line, answered, rfl, left⟩
          cases act
          simpa [Act.arrival?, call?] using accords_writeStep .zero answered left
      | ending r =>
          cases act
          simp only [Act.arrival?, call?, taken?, Option.toList_none, List.append_nil]
          exact Result.Accords.congr h rfl List.prefix_rfl
      | finished r => cases act
  | crash =>
      rcases x with ⟨c, stage⟩
      -- Only an exchange that is about to answer can crash.
      cases stage <;> cases act
      rename_i line
      rcases h with ⟨unsent, first⟩
      have answered : Answered p w arrivals (calls ++ [line]) taken line ⟨c, .ending .crashed⟩ :=
        unsent.answered rfl first
      simp only [Act.arrival?, call?, taken?, Option.toList_none, Option.toList_some,
        List.append_nil]
      exact .inr ⟨line, answered⟩
  | drop =>
      rcases x with ⟨c, stage⟩
      simp only [Act.arrival?, call?, taken?, Option.toList_none, List.append_nil]
      cases stage with
      | searching =>
          cases act
          exact .inl (h.1.congr rfl)
      | awaiting wait =>
          cases act
          exact .inl (h.1.congr rfl)
      | writing response rest =>
          cases act
          rcases h with ⟨line, answered, -, -⟩
          exact .inr ⟨line, answered.congr rfl List.prefix_rfl⟩
      | answering line => cases act
      | ending r => cases act
      | finished r => cases act

/-! ## Runs -/

/-- After every run of one exchange, what holds at its stage holds. -/
theorem accords_of_run {as : List Act} (run : (machine p w).run? (start w) as = some x) :
    x.Accords p w (script w as) ((machine p w).log call? (start w) as)
      ((machine p w).log taken? (start w) as) := by
  refine Machine.run?_induction (motive := fun as x => x.Accords p w (script w as)
    ((machine p w).log call? (start w) as) ((machine p w).log taken? (start w) as)) ?_ ?_ run
  · simpa [script] using accords_start p w
  · intro as x x' a run last ih
    have arrived : script w (as ++ [a]) = script w as ++ a.arrival?.toList := by
      cases came : a.arrival? <;> simp [script, came]
    rw [Machine.log_concat call? run last, Machine.log_concat taken? run last, arrived]
    exact ih.of_act last

/-- What holds at whatever stage: nothing was sent and nobody called, or the first line was
answered. -/
theorem Accords.unsent_or_answered (h : x.Accords p w arrivals calls taken) :
    x.Unsent w calls taken ∨ ∃ line, x.Answered p w arrivals calls taken line := by
  rcases x with ⟨c, stage⟩
  -- The result is known at two stages, and says the same at both.
  have known (r : Result) (h : r.Accords p w arrivals calls taken ⟨c, stage⟩) :
      Unsent w calls taken ⟨c, stage⟩ ∨
        ∃ line, Answered p w arrivals calls taken line ⟨c, stage⟩ := by
    cases r with
    | success =>
        rcases h with ⟨line, answered, -⟩
        exact .inr ⟨line, answered⟩
    | failure e =>
        cases e with
        | read e => exact .inl h
        | write e => exact h
    | crashed => exact h
    | dropped => exact h
  cases stage with
  | searching => exact .inl h.1
  | awaiting => exact .inl h.1
  | answering => exact .inl h.1
  | writing response rest =>
      rcases h with ⟨line, answered, -, -⟩
      exact .inr ⟨line, answered⟩
  | ending r => exact known r h
  | finished r => exact known r h

/-- Exchanges with the same first line, of whose answer as much was taken, have sent the same. -/
theorem Accords.sent_eq {v : Wire} {bs : List Arrival} {calls' : List Bytes} {y : Exchange}
    (h : x.Accords p w arrivals calls taken) (h' : y.Accords p v bs calls' taken)
    (sent : v.sent = w.sent)
    (first : Line.first? Line.delimiter (bs.flatMap Arrival.bytes) =
      Line.first? Line.delimiter (arrivals.flatMap Arrival.bytes)) : y.sent = x.sent := by
  rcases h.unsent_or_answered with unsent | ⟨line, answered⟩ <;>
    rcases h'.unsent_or_answered with unsent' | ⟨line', answered'⟩
  · rw [unsent'.sent, unsent.sent, sent]
  · simp [answered'.sent, unsent.sent, unsent.taken, sent]
  · simp [answered.sent, unsent'.sent, unsent'.taken, sent]
  · have same : line' = line :=
      Option.some.inj (answered'.first.symm.trans (first.trans answered.first))
    rw [answered'.sent, answered.sent, sent, same]

/-- What holds of the result that is known. -/
theorem Accords.of_result {r : Result} (h : x.Accords p w arrivals calls taken)
    (known : x.result? = some r) : r.Accords p w arrivals calls taken x := by
  rcases x with ⟨c, stage⟩
  cases stage <;> cases known <;> exact h

end Exchange
end LineExchange
