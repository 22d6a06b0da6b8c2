import LineExchange.Proofs.Call.Link

/-!
# Server side — an exchange whose connection fails at nothing

This file follows one exchange from the accept to its end, on a connection that fails at nothing
and brings the bytes of one line.  It defines:

* `Exchange.OnCourse` — what is known of the exchange at each of its stages;
* `Exchange.left` — how much the exchange has still to do, so that every step leaves less;
* `Exchange.Idles` — the exchange awaits a piece and none is there;
* `Call.Serving` — the exchanges of a server that knows one connection, or none yet;
* `Call.Attends` — an event that leaves the server less to do.

An exchange on its course that does not idle goes on, and stays on its course (`OnCourse.goesOn`);
so a step of the server attends to the call or changes nothing (`Serving.step_or_rests`).
-/

namespace LineExchange
namespace Exchange

/-- How much is to be done at a stage and behind it, when the answer has `size` bytes. -/
def Stage.left (size : Nat) : Stage → Nat
  | .searching => 6 * size + 10
  | .awaiting wait => 6 * size + 7 + wait.left
  | .answering _ => 6 * size + 6
  | .writing _ rest => 6 * rest.length + 5
  | .ending _ => 1
  | .finished _ => 0

def left (size : Nat) (x : Exchange) : Nat :=
  x.stage.left size + x.channel.wire.left

/-- What is known of an exchange to which have come the first `m` bytes of the line `payload`, and
whose answer is `answer`. -/
def OnCourse (payload answer : Bytes) (m : Nat) (x : Exchange) : Prop :=
  match x.stage with
  | .searching => x.channel.Receiving payload m false ∧ x.sent = []
  | .awaiting _ =>
      x.channel.Receiving payload m false ∧ x.sent = [] ∧ Line.delimiter ∉ x.channel.inbox.bytes
  | .answering line => line = payload ∧ x.sent = [] ∧ x.channel.wire.IsGentle
  | .writing response rest => response = answer ∧ x.sent ++ rest = answer ∧ x.channel.wire.IsGentle
  | .ending r | .finished r => r = .success ∧ x.sent = answer

def Idles (x : Exchange) : Prop :=
  ∃ wait, x.stage = .awaiting wait ∧ x.channel.wire.arrivals = []

variable {payload answer : Bytes} {m : Nat} {x : Exchange} {p : Responder} {t : Traffic}

theorem OnCourse.start {w : Wire} (gentle : w.IsGentle) (nothing : w.arrivals = [])
    (unsent : w.sent = []) : (Exchange.start w).OnCourse payload answer 0 :=
  ⟨.ofWire payload gentle nothing, unsent⟩

theorem OnCourse.sent_isPrefix (h : x.OnCourse payload answer m) : x.sent <+: answer := by
  rcases x with ⟨channel, stage⟩
  have hnone (unsent : channel.wire.sent = []) : channel.wire.sent <+: answer :=
    unsent ▸ List.nil_prefix
  cases stage with
  | searching => exact hnone h.2
  | awaiting => exact hnone h.2.1
  | answering => exact hnone h.2.1
  | writing response rest => exact ⟨rest, h.2.1⟩
  | ending => exact (show channel.wire.sent = answer from h.2) ▸ List.prefix_rfl
  | finished => exact (show channel.wire.sent = answer from h.2) ▸ List.prefix_rfl

/-- A step of an exchange: it stays on its course and has less to do, where what it sends weighs
less than what it had to send; or it idles. -/
def GoesOn (p : Responder) (payload : Bytes) (m : Nat) (t : Traffic) (x : Exchange) : Prop :=
  ∃ x' t', x.step p t = some (x', t') ∧ x'.OnCourse payload (p payload) m ∧
    x.sent.length ≤ x'.sent.length ∧
    (x'.left (p payload).length + 5 * x'.sent.length <
        x.left (p payload).length + 5 * x.sent.length ∨ x' = x ∧ t' = t ∧ x.Idles)

variable {c : Channel}

theorem goesOn_of_searching (isLine : Line.IsLine Line.delimiter payload)
    (short : payload.length ≤ Inbox.capacity)
    (h : OnCourse payload (p payload) m ⟨c, .searching⟩) :
    GoesOn p payload m t ⟨c, .searching⟩ := by
  rcases h with ⟨receiving, unsent⟩
  -- What is found is the payload, for no shorter part of it is a line.
  rcases receiving.offer isLine short with ⟨c', wire, found | ⟨more, still, free⟩⟩
  · have gentle : c'.wire.IsGentle := wire ▸ receiving.gentle
    refine ⟨⟨c', .answering payload⟩, t.read (.ofNat payload.length), ?_, ⟨rfl, ?_, gentle⟩, ?_,
      .inl ?_⟩
    · simp only [Exchange.step, searchStep, found]
    · simpa only [Exchange.sent, wire] using unsent
    · simp [Exchange.sent, wire]
    · simp only [left, Stage.left, Exchange.sent, wire]
      omega
  · refine ⟨⟨c', .awaiting .unpolled⟩, t, ?_, ⟨still, ?_, free⟩, ?_, .inl ?_⟩
    · simp only [Exchange.step, searchStep, more]
    · simpa only [Exchange.sent, wire] using unsent
    · simp [Exchange.sent, wire]
    · simp only [left, Stage.left, Exchange.sent, wire, Wait.left]
      omega

theorem goesOn_of_awaiting {wait : Wait} (isLine : Line.IsLine Line.delimiter payload)
    (h : OnCourse payload (p payload) m ⟨c, .awaiting wait⟩) :
    GoesOn p payload m t ⟨c, .awaiting wait⟩ := by
  rcases h with ⟨receiving, unsent, free⟩
  -- Nobody ever raises the latch of an exchange.
  rcases receiving.await (l := .never) wait isLine free rfl rfl with
    ⟨nothing, wait', pending, settles⟩ | ⟨c', arrived, still, wire, hne⟩
  · have step : Exchange.step p ⟨c, .awaiting wait⟩ t = some (⟨c, .awaiting wait'⟩, t) := by
      simp only [Exchange.step, awaitStep, pending]
    refine ⟨⟨c, .awaiting wait'⟩, t, step, ⟨receiving, unsent, free⟩, Nat.le_refl _, ?_⟩
    rcases settles with rfl | less
    · exact .inr ⟨rfl, rfl, _, rfl, nothing⟩
    · left
      simp only [left, Stage.left, Exchange.sent]
      omega
  · have sent : c'.wire.sent = c.wire.sent := by rw [wire]
    refine ⟨⟨c', .searching⟩, t, ?_, ⟨still, ?_⟩, ?_, .inl ?_⟩
    · simp only [Exchange.step, awaitStep, arrived]
    · simpa only [Exchange.sent, sent] using unsent
    · simp [Exchange.sent, sent]
    · have fewer : 0 < c.wire.arrivals.length := List.length_pos_iff.2 hne
      simp only [left, Stage.left, Exchange.sent, Wire.left, wire, List.length_tail]
      omega

theorem goesOn_of_writing {response rest : Bytes}
    (h : OnCourse payload (p payload) m ⟨c, .writing response rest⟩) :
    GoesOn p payload m t ⟨c, .writing response rest⟩ := by
  rcases h with ⟨rfl, sent, gentle⟩
  cases rest with
  | nil =>
      have flushed : c.wire.flush = (c.wire, none) := gentle.flush
      have whole : c.wire.sent = p payload := (List.append_nil _).symm.trans sent
      refine ⟨⟨c, .ending .success⟩, t.wrote (.ofNat (p payload).length), ?_,
        ⟨rfl, whole⟩, Nat.le_refl _, .inl ?_⟩
      · simp only [Exchange.step, writeStep, flushed]
      · simp only [left, Stage.left, Exchange.sent, List.length_nil]
        omega
  | cons b bs =>
      rcases Wire.IsGentle.take (w := c.wire) gentle b bs with
        ⟨w, gentle', arrivals, ⟨rest, taken, sent', shorter, script⟩ | ⟨taken, sent', script⟩⟩
      · -- The stream takes some of the bytes, or none for now: then its script is shorter.
        have lengths := congrArg List.length sent'
        simp only [List.length_append, List.length_cons] at lengths
        refine ⟨⟨{ c with wire := w }, .writing (p payload) rest⟩, t, ?_,
          ⟨rfl, sent'.trans sent, gentle'⟩, ?_, .inl ?_⟩
        · simp only [Exchange.step, writeStep, taken]
        · simp only [Exchange.sent]
          omega
        · simp only [left, Stage.left, Exchange.sent, Wire.left, List.length_cons, arrivals]
          omega
      · have same : Exchange.sent ⟨{ c with wire := w }, .writing (p payload) (b :: bs)⟩ =
            Exchange.sent ⟨c, .writing (p payload) (b :: bs)⟩ := sent'
        refine ⟨⟨{ c with wire := w }, .writing (p payload) (b :: bs)⟩, t, ?_,
          ⟨rfl, same ▸ sent, gentle'⟩, same ▸ Nat.le_refl _, .inl ?_⟩
        · simp only [Exchange.step, writeStep, taken]
        · simp only [left, Stage.left, Exchange.sent, Wire.left, List.length_cons, arrivals, sent']
          omega

/-- An exchange that is not over goes on, unless it idles. -/
theorem OnCourse.goesOn (t : Traffic) (isLine : Line.IsLine Line.delimiter payload)
    (short : payload.length ≤ Inbox.capacity) (h : x.OnCourse payload (p payload) m)
    (hopen : x.isFinished = false) : x.GoesOn p payload m t := by
  rcases x with ⟨c, stage⟩
  cases stage with
  | searching => exact goesOn_of_searching isLine short h
  | awaiting wait => exact goesOn_of_awaiting isLine h
  | answering line =>
      rcases h with ⟨rfl, unsent, gentle⟩
      -- The response is all there before the first byte is written.
      have whole : c.wire.sent ++ p line = p line := by
        rw [show c.wire.sent = [] from unsent, List.nil_append]
      refine ⟨⟨c, .writing (p line) (p line)⟩, t.answered, rfl, ⟨rfl, whole, gentle⟩,
        Nat.le_refl _, .inl ?_⟩
      simp only [left, Stage.left, Exchange.sent]
      omega
  | writing response rest => exact goesOn_of_writing h
  | ending r =>
      refine ⟨⟨c, .finished r⟩, t.closed, rfl, h, Nat.le_refl _, .inl ?_⟩
      simp only [left, Stage.left, Exchange.sent]
      omega
  | finished => cases hopen

/-- Another piece of the line is on its way to the exchange; it weighs as one arrival. -/
theorem OnCourse.arrive {piece : Bytes} {n : Nat} (h : x.OnCourse payload answer m)
    (next : piece = (payload.drop m).take n) (hne : piece ≠ []) :
    ∃ x', x' = { x with channel :=
        { x.channel with wire := x.channel.wire.expect (.piece piece) } } ∧
      x'.OnCourse payload answer (m + piece.length) ∧ x'.sent = x.sent ∧
      x'.left answer.length = x.left answer.length + 4 := by
  refine ⟨_, rfl, ?_, rfl, ?_⟩
  · rcases x with ⟨c, stage⟩
    cases stage with
    | searching => exact ⟨h.1.expectPiece next hne, h.2⟩
    | awaiting => exact ⟨h.1.expectPiece next hne, h.2⟩
    | answering => exact ⟨h.1, h.2.1, h.2.2.uptakes, h.2.2.flushes⟩
    | writing => exact ⟨h.1, h.2.1, h.2.2.uptakes, h.2.2.flushes⟩
    | ending => exact h
    | finished => exact h
  · simp only [left, Wire.left, Wire.expect, List.length_append, List.length_singleton]
    omega

end Exchange

/-! ## The exchanges of a call -/

namespace Call

/-- What the server sent, by the exchange that answers the call if one was begun. -/
def sentBy : Option Exchange → Bytes
  | some x => x.sent
  | none => []

/-- How much the server has still to do; what it sent weighs less than what it had to send. -/
def serverLeft (a : Call) : Option Exchange → Nat
  | some x => x.left a.answer.length + 5 * x.sent.length
  | none => 6 * a.answer.length + 11 + a.down.length

/-- The exchanges of the server of a call: none yet, or one, which is on its course. -/
structure Serving (a : Call) (m : Nat) (x : Option Exchange) (xs : Exchanges) : Prop where
  all : xs.all = x.toList
  course : ∀ y, x = some y → y.OnCourse a.payload a.answer m
  unserved : x = none → m = 0

def Attends (a : Call) (m : Nat) (x : Option Exchange) (xs : Exchanges) (e : Exchanges.Event) :
    Prop :=
  ∃ xs' y, Exchanges.step? a.respond xs e = some xs' ∧ a.Serving m (some y) xs' ∧
    (sentBy x).length ≤ y.sent.length ∧ a.serverLeft (some y) < a.serverLeft x

namespace Serving

variable {a : Call} {m : Nat} {x : Option Exchange} {y : Exchange} {xs : Exchanges}

theorem start (a : Call) : a.Serving 0 none .fresh where
  all := rfl
  course := by simp
  unserved _ := rfl

theorem sentBy_isPrefix (h : a.Serving m x xs) : sentBy x <+: a.answer := by
  cases x with
  | none => exact List.nil_prefix
  | some y => exact (h.course y rfl).sent_isPrefix

/-- The exchange of the call at another stage, or with another script. -/
theorem put {z : Exchange} {t : Traffic} {n : Nat} (h : a.Serving m (some y) xs)
    (course : z.OnCourse a.payload a.answer n) : a.Serving n (some z) (xs.put 0 (z, t)) where
  all := by simp [Exchanges.put, h.all]
  course w same := Option.some.inj same ▸ course
  unserved := by simp

theorem accept (gentle : ∀ u ∈ a.down, u.IsGentle) (h : a.Serving m none xs) :
    a.Attends m none xs (.accept a.downstream) := by
  obtain rfl : m = 0 := h.unserved rfl
  have course : (Exchange.start a.downstream).OnCourse a.payload a.answer 0 :=
    .start ⟨gentle, rfl⟩ rfl rfl
  refine ⟨xs.accept a.downstream, .start a.downstream, rfl, ⟨?_, ?_, by simp⟩, Nat.zero_le _, ?_⟩
  · simp [Exchanges.accept, h.all]
  · exact fun z same => Option.some.inj same ▸ course
  · simp [serverLeft, Exchange.start, Exchange.left, Exchange.Stage.left, Exchange.sent,
      Channel.ofWire, Wire.left, Call.downstream]

/-- The exchange of the call goes on, unless it is over or idles. -/
theorem step (isLine : Line.IsLine Line.delimiter a.payload)
    (short : a.payload.length ≤ Inbox.capacity) (h : a.Serving m (some y) xs)
    (hopen : y.isFinished = false) :
    a.Attends m (some y) xs (.step 0) ∨
      y.Idles ∧ Exchanges.step? a.respond xs (.step 0) = some xs := by
  rcases (h.course y rfl).goesOn (p := a.respond) xs.traffic isLine short hopen with
    ⟨z, t, moved, course, more, less | ⟨rfl, rfl, idles⟩⟩
  · have step : Exchanges.step? a.respond xs (.step 0) = some (xs.put 0 (z, t)) := by
      simp [Exchanges.step?, h.all, moved]
    exact .inl ⟨_, z, step, h.put course, more, less⟩
  · have step : Exchanges.step? a.respond xs (.step 0) = some (xs.put 0 (z, xs.traffic)) := by
      simp [Exchanges.step?, h.all, moved]
    have same : xs.put 0 (z, xs.traffic) = xs := by
      rcases xs with ⟨all, traffic⟩
      obtain rfl : all = [z] := h.all
      rfl
    exact .inr ⟨idles, step.trans (congrArg some same)⟩

theorem step_or_rests (isLine : Line.IsLine Line.delimiter a.payload)
    (short : a.payload.length ≤ Inbox.capacity) (h : a.Serving m x xs) :
    a.Attends m x xs (.step 0) ∨
      ∀ xs', Exchanges.step? a.respond xs (.step 0) = some xs' → xs' = xs := by
  cases x with
  | none =>
      right
      intro xs' step
      simp [Exchanges.step?, h.all] at step
  | some y =>
      cases finished : y.isFinished with
      | true =>
          right
          intro xs' step
          rcases y with ⟨c, stage⟩
          cases stage with
          | finished => simp [Exchanges.step?, h.all, Exchange.step] at step
          | _ => cases finished
      | false =>
          rcases h.step isLine short finished with attends | ⟨-, same⟩
          · exact .inl attends
          · exact .inr fun xs' step => Option.some.inj (step.symm.trans same)

/-- A piece of the line comes to the server; it weighs as one arrival. -/
theorem arrive {piece : Bytes} {n : Nat} (h : a.Serving m (some y) xs)
    (next : piece = (a.payload.drop m).take n) (hne : piece ≠ []) :
    ∃ xs' z, Exchanges.step? a.respond xs (.arrive 0 (.piece piece)) = some xs' ∧
      a.Serving (m + piece.length) (some z) xs' ∧ z.sent = y.sent ∧
      a.serverLeft (some z) = a.serverLeft (some y) + 4 := by
  rcases (h.course y rfl).arrive next hne with ⟨z, rfl, course, sent, weighs⟩
  refine ⟨_, _, ?_, h.put (t := xs.traffic) course, sent, ?_⟩
  · simp [Exchanges.step?, Exchanges.onWire, h.all]
  · simp only [serverLeft, weighs, sent]
    omega

end Serving
end Call
end LineExchange
