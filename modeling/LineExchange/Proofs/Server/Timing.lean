import LineExchange.Proofs.Channel.Transfer
import LineExchange.Proofs.Server.Answering

/-!
# Timing — when the pieces arrive changes nothing

An exchange that finds no piece waits, and takes the piece when it has come.  This file follows it
beside an exchange that has every piece before it from the start, and so never waits.  It defines:

* `Exchange.Act.isPlain` — a piece arrives, or the exchange goes on;
* `Exchange.ahead` — the exchange, when more pieces have come already.

A step of the one is a step of the other, unless it only waits (`ahead_of_step`); so the exchange
that waits comes to a place to which the other comes by itself (`ahead_of_run`), and there is only
one way for it to go (`same_of_script`).
-/

namespace LineExchange
namespace Exchange

def Act.isPlain : Act → Bool
  | .arrive _ | .step => true
  | _ => false

def Stage.unwaited : Stage → Stage
  | .awaiting _ => .awaiting .unpolled
  | stage => stage

/-- The exchange, when the pieces `more` have come already. -/
def ahead (more : List Arrival) (x : Exchange) : Exchange where
  channel :=
    { x.channel with wire := x.channel.wire.withArrivals (x.channel.wire.arrivals ++ more) }
  stage := x.stage.unwaited

variable {p : Responder} {w : Wire} {x x' y : Exchange} {as : List Act}

@[simp] theorem sent_ahead (more : List Arrival) (x : Exchange) : (x.ahead more).sent = x.sent :=
  rfl

@[simp] theorem result?_ahead (more : List Arrival) (x : Exchange) :
    (x.ahead more).result? = x.result? := by
  rcases x with ⟨c, stage⟩
  cases stage <;> rfl

theorem ahead_expect (more : List Arrival) (a : Arrival) (x : Exchange) :
    (x.onWire (.expect a)).ahead more = x.ahead (a :: more) := by
  simp [ahead, onWire, Wire.expect, Wire.withArrivals]

theorem ahead_of_searchStep (more : List Arrival) {c : Channel} (t : Traffic) :
    (searchStep ⟨c, .searching⟩ t).1.channel.signal = c.signal ∧
      (searchStep ((⟨c, .searching⟩ : Exchange).ahead more) t).1 =
        (searchStep ⟨c, .searching⟩ t).1.ahead more := by
  simp only [searchStep, ahead, Channel.offer]
  cases offered : c.inbox.offer Line.delimiter with
  | mk i o => cases o <;> exact ⟨rfl, rfl⟩

/-- One who awaits more takes the same piece, or waits where the other need not. -/
theorem ahead_of_awaitStep (more : List Arrival) {c : Channel} (wait : Wait)
    (first : c.signal = .first) :
    (awaitStep ⟨c, .awaiting wait⟩ wait).channel.signal = .first ∧
      (awaitStep ((⟨c, .awaiting wait⟩ : Exchange).ahead more) .unpolled =
          (awaitStep ⟨c, .awaiting wait⟩ wait).ahead more ∨
        (awaitStep ⟨c, .awaiting wait⟩ wait).ahead more =
          (⟨c, .awaiting wait⟩ : Exchange).ahead more) := by
  rcases c with ⟨⟨arrivals, uptakes, flushes, sent⟩, inbox, signal⟩
  obtain rfl : signal = .first := first
  rcases Signal.poll_unwritten (l := .never) rfl rfl wait with ⟨wait', polled, -⟩
  rcases Signal.poll_unwritten (l := .never) rfl rfl .unpolled with ⟨wait₀, polled₀, -⟩
  cases arrivals with
  | nil =>
      -- Nothing came: all that changes is how it waits, which `unwaited` forgets.
      have waits : awaitStep ⟨⟨⟨[], uptakes, flushes, sent⟩, inbox, .first⟩, .awaiting wait⟩ wait =
          ⟨⟨⟨[], uptakes, flushes, sent⟩, inbox, .first⟩, .awaiting wait'⟩ := by
        simp only [awaitStep, Channel.await, polled, Channel.receive, Wire.arrive]
      rw [waits]
      exact ⟨rfl, .inr rfl⟩
  | cons a rest =>
      simp only [awaitStep, ahead, Channel.await, polled, polled₀, Channel.receive, Wire.arrive,
        Wire.withArrivals, List.cons_append]
      cases a with
      | piece bs => cases bs <;> exact ⟨rfl, .inl rfl⟩
      | close => exact ⟨rfl, .inl rfl⟩
      | failure e => exact ⟨rfl, .inl rfl⟩

theorem ahead_of_writeStep (more : List Arrival) {c : Channel} {stage : Stage}
    (response rest : Bytes) (t : Traffic) :
    (writeStep ⟨c, stage⟩ response rest t).1.channel.signal = c.signal ∧
      (writeStep ((⟨c, stage⟩ : Exchange).ahead more) response rest t).1 =
        (writeStep ⟨c, stage⟩ response rest t).1.ahead more := by
  cases rest with
  | nil =>
      have kept := c.wire.arrivals_flush
      simp only [writeStep, ahead, Wire.flush_withArrivals]
      cases flushed : c.wire.flush with
      | mk w e =>
          rw [flushed] at kept
          rw [← kept]
          cases e <;> exact ⟨rfl, rfl⟩
  | cons b bs =>
      have kept := c.wire.arrivals_take (b :: bs)
      simp only [writeStep, ahead, Wire.take_withArrivals]
      cases took : c.wire.take (b :: bs) with
      | mk w r =>
          rw [took] at kept
          rw [← kept]
          cases r <;> exact ⟨rfl, rfl⟩

/-- A step with the pieces to come is the same step with all of them there, or it only waits. -/
theorem ahead_of_step (more : List Arrival) (first : x.channel.signal = .first)
    (moved : x.act? p .step = some x') :
    x'.channel.signal = .first ∧ ((x.ahead more).act? p .step = some (x'.ahead more) ∨
      x'.ahead more = x.ahead more) := by
  rcases x with ⟨c, stage⟩
  cases stage with
  | searching =>
      cases moved
      rcases ahead_of_searchStep more (c := c) .zero with ⟨signal, same⟩
      exact ⟨signal.trans first, .inl (congrArg some same)⟩
  | awaiting wait =>
      cases moved
      rcases ahead_of_awaitStep more wait first with ⟨still, same | idle⟩
      · exact ⟨still, .inl (congrArg some same)⟩
      · exact ⟨still, .inr idle⟩
  | answering line =>
      cases moved
      exact ⟨first, .inl rfl⟩
  | writing response rest =>
      cases moved
      rcases ahead_of_writeStep more (c := c) response rest .zero with ⟨signal, same⟩
      exact ⟨signal.trans first, .inl (congrArg some same)⟩
  | ending r =>
      cases moved
      exact ⟨first, .inl rfl⟩
  | finished r => cases moved

/-! ## Runs -/

def stepped (p : Responder) : Nat → Exchange → Option Exchange
  | 0, x => some x
  | n + 1, x => (x.act? p .step).bind (stepped p n)

theorem stepped_add (m n : Nat) (x : Exchange) :
    stepped p (m + n) x = (stepped p m x).bind (stepped p n) := by
  induction m generalizing x with
  | zero => rw [Nat.zero_add, stepped, Option.bind_some]
  | succ m ih =>
      rw [Nat.add_right_comm, stepped, stepped, Option.bind_assoc]
      exact Option.bind_congr fun y _ => ih y

/-- An exchange that waits for its pieces comes to where it would come without waiting. -/
theorem ahead_of_run (run : (machine p w).run? (start w) as = some x)
    (plain : ∀ a ∈ as, a.isPlain = true) :
    x.channel.signal = .first ∧ ∀ more, ∃ n, stepped p n
      ((start w).ahead (as.filterMap Act.arrival? ++ more)) = some (x.ahead more) := by
  refine Machine.run?_induction (motive := fun as x => (∀ a ∈ as, a.isPlain = true) →
    x.channel.signal = .first ∧ ∀ more, ∃ n, stepped p n
      ((start w).ahead (as.filterMap Act.arrival? ++ more)) = some (x.ahead more)) ?_ ?_ run plain
  · intro _
    exact ⟨rfl, fun more => ⟨0, rfl⟩⟩
  · intro as x x' a _ moved ih plain
    rcases ih fun a mem => plain a (List.mem_append_left _ mem) with ⟨first, before⟩
    cases a with
    | arrive b =>
        cases moved
        refine ⟨first, fun more => ?_⟩
        -- To the other this piece had come before.
        rcases before (b :: more) with ⟨n, came⟩
        refine ⟨n, ?_⟩
        rw [ahead_expect, ← came]
        simp [Act.arrival?]
    | step =>
        refine ⟨(ahead_of_step [] first moved).1, fun more => ?_⟩
        rcases before more with ⟨n, came⟩
        have arrived : (as ++ [Act.step]).filterMap Act.arrival? = as.filterMap Act.arrival? := by
          simp [Act.arrival?]
        rw [arrived]
        rcases (ahead_of_step more first moved).2 with same | idle
        · refine ⟨n + 1, ?_⟩
          rw [stepped_add, came]
          simpa [stepped] using same
        · exact ⟨n, by rw [came, idle]⟩
    | allow u => simpa [Act.isPlain] using plain (.allow u) (by simp)
    | failFlush e => simpa [Act.isPlain] using plain (.failFlush e) (by simp)
    | crash => simpa [Act.isPlain] using plain .crash (by simp)
    | drop => simpa [Act.isPlain] using plain .drop (by simp)

/-- A result that is known stays, and nothing is sent any more. -/
theorem result?_of_stepped {n : Nat} {r : Result} (known : x.result? = some r)
    (later : stepped p n x = some y) : y.result? = some r ∧ y.sent = x.sent := by
  induction n generalizing x with
  | zero =>
      cases later
      exact ⟨known, rfl⟩
  | succ n ih =>
      rcases Option.bind_eq_some_iff.1 later with ⟨x', moved, rest⟩
      rcases x with ⟨c, stage⟩
      cases stage with
      | ending r' =>
          cases moved
          exact ih (x := ⟨c, .finished r'⟩) known rest
      | finished r' => cases moved
      | searching => cases known
      | awaiting => cases known
      | answering => cases known
      | writing => cases known

/-- There is only one result to come to. -/
theorem same_of_stepped {z : Exchange} {m n : Nat} {r r' : Result}
    (came : stepped p m z = some x) (came' : stepped p n z = some y)
    (known : x.result? = some r) (known' : y.result? = some r') : r' = r ∧ y.sent = x.sent := by
  -- One of them has taken all the steps of the other, and then more.
  rcases Nat.le_total m n with fewer | fewer
  · obtain ⟨k, rfl⟩ := Nat.exists_eq_add_of_le fewer
    rw [stepped_add, came] at came'
    rcases result?_of_stepped known came' with ⟨still, sent⟩
    exact ⟨Option.some.inj (known'.symm.trans still), sent⟩
  · obtain ⟨k, rfl⟩ := Nat.exists_eq_add_of_le fewer
    rw [stepped_add, came'] at came
    rcases result?_of_stepped known' came with ⟨still, sent⟩
    exact ⟨Option.some.inj (still.symm.trans known), sent.symm⟩

/-- On streams with the same scripts, exchanges that come to a result without being dropped come to
the same, and have sent the same, whenever their pieces arrived. -/
theorem same_of_script {v : Wire} {bs : List Act} {r r' : Result}
    (run : (machine p w).run? (start w) as = some x) (plain : ∀ a ∈ as, a.isPlain = true)
    (other : (machine p v).run? (start v) bs = some y) (plain' : ∀ b ∈ bs, b.isPlain = true)
    (wire : v = w.withArrivals v.arrivals) (same : script v bs = script w as)
    (known : x.result? = some r) (known' : y.result? = some r') : r' = r ∧ y.sent = x.sent := by
  have whole (w : Wire) (as : List Act) : (start w).ahead (as.filterMap Act.arrival? ++ []) =
      start (w.withArrivals (script w as)) := by
    simp [ahead, start, script, Channel.ofWire, Stage.unwaited]
  have only : v.withArrivals (script v bs) = w.withArrivals (script w as) := by
    rw [same, wire]
    rfl
  obtain ⟨m, came⟩ := (ahead_of_run run plain).2 []
  obtain ⟨n, came'⟩ := (ahead_of_run other plain').2 []
  rw [whole] at came came'
  rw [only] at came'
  rw [← result?_ahead []] at known known'
  have ends := same_of_stepped came came' known known'
  rwa [sent_ahead, sent_ahead] at ends

end Exchange
end LineExchange
