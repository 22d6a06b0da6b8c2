import LineExchange.Channel.Channel

/-!
# Channel run — one channel over a scripted stream

A run starts with a channel over a stream whose script is empty, a latch, and the latch's holder.
This file defines:

* `Channel.Change` — what happens around the channel: to the script, the latch and its holder;
* `Channel.Operation` — reading a line, or writing a payload;
* `Channel.Step` — a change, an operation, polling it again, or giving it up;
* `Channel.Answer` and `Channel.Entry` — what a step shows;
* `Channel.State` with `Channel.step` and `Channel.run` — the runs.

An operation is polled when it begins.  While it waits it is in flight: changes leave it there,
and an operation that begins makes an end of it without a trace.
-/

namespace LineExchange
namespace Channel

inductive Change where
  /-- Bytes will arrive in pieces of `size` bytes. -/
  | feed (size : Nat) (bytes : Bytes)
  | feedClose
  | feedFailure (error : IoError)
  | allow (uptake : Uptake)
  | failFlush (error : IoError)
  | raise
  | release
  deriving DecidableEq, Repr

/-- What a channel is asked to do. -/
inductive Operation where
  | read (delimiter : UInt8)
  | write (payload : Bytes)
  deriving DecidableEq, Repr

inductive Step where
  | change (change : Change)
  | start (operation : Operation)
  | poll
  | abandon
  deriving DecidableEq, Repr

/-- An operation that waits. -/
inductive Flight where
  | reading (delimiter : UInt8) (wait : Wait)
  /-- A write of `total` bytes that has `rest` before it. -/
  | writing (total : Nat) (rest : Bytes)
  deriving DecidableEq, Repr

inductive Answer where
  | done
  | noHolder
  | line (line : Bytes)
  | written (count : Nat)
  | failed (error : ChannelError)
  | abandoned
  | idle
  deriving DecidableEq, Repr

structure State where
  channel : Channel
  latch : Latch
  /-- Whether the channel watches the latch; else it watches one that is never raised. -/
  watches : Bool
  flight : Option Flight
  deriving DecidableEq, Repr

inductive Entry where
  | pending
  /-- The answer to a change while an operation is in flight. -/
  | inFlight (answer : Answer)
  /-- An answer with the bytes in the inbox, whether the latch is raised, and how many bytes were
  sent. -/
  | settled (answer : Answer) (buffered : Bytes) (cancelled : Bool) (sent : Nat)
  deriving DecidableEq, Repr

namespace State

def start (watches : Bool) : State where
  channel := .ofWire .blank .first
  latch := .fresh
  watches := watches
  flight := none

/-- The latch that the channel watches. -/
def watched (s : State) : Latch :=
  if s.watches then s.latch else .never

/-- What the state shows beside an answer. -/
def entry (s : State) (a : Answer) : Entry :=
  .settled a s.channel.inbox.bytes s.watched.raised s.channel.wire.sent.length

def onWire (s : State) (f : Wire → Wire) : State :=
  { s with channel := { s.channel with wire := f s.channel.wire } }

end State

/-- Something happens around the channel. -/
def change (s : State) : Change → State × Answer
  | .feed size bs => (s.onWire (.feed size bs), .done)
  | .feedClose => (s.onWire (.expect .close), .done)
  | .feedFailure e => (s.onWire (.expect (.failure e)), .done)
  | .allow u => (s.onWire (.allow u), .done)
  | .failFlush e => (s.onWire (.failFlush e), .done)
  | .raise =>
      if s.latch.held then ({ s with latch := s.latch.raise }, .done) else (s, .noHolder)
  | .release => ({ s with latch := s.latch.release }, .done)

/-- A read came so far. -/
def settleRead (s : State) (d : UInt8) : Channel × ReadPoll → State × Option Answer
  | (c, .ready (.ok bs)) => ({ s with channel := c, flight := none }, some (.line bs))
  | (c, .ready (.error e)) => ({ s with channel := c, flight := none }, some (.failed e))
  | (c, .pending wait) => ({ s with channel := c, flight := some (.reading d wait) }, none)

/-- A write of `total` bytes came so far. -/
def settleWrite (s : State) (total : Nat) : Channel × WritePoll → State × Option Answer
  | (c, .ready (.ok ())) => ({ s with channel := c, flight := none }, some (.written total))
  | (c, .ready (.error e)) => ({ s with channel := c, flight := none }, some (.failed e))
  | (c, .pending rest) => ({ s with channel := c, flight := some (.writing total rest) }, none)

/-- An operation begins; there is no answer while it waits. -/
def begin (s : State) : Operation → State × Option Answer
  | .read d => settleRead s d (s.channel.pollRead s.watched d)
  | .write bs => settleWrite s bs.length (s.channel.pollWrite bs)

/-- An operation in flight is polled. -/
def resume (s : State) : Flight → State × Option Answer
  | .reading d wait => settleRead s d (s.channel.resumeRead s.watched d wait)
  | .writing total rest => settleWrite s total (s.channel.pollWrite rest)

/-- The entry of an operation that was polled. -/
def entryOf : State × Option Answer → State × Entry
  | (s, some a) => (s, s.entry a)
  | (s, none) => (s, .pending)

/-- One step of a run, with what it shows. -/
def step (s : State) : Step → State × Entry
  | .change a =>
      let (s', r) := change s a
      (s', if s.flight.isSome then .inFlight r else s'.entry r)
  | .start op => entryOf (begin { s with flight := none } op)
  | .poll =>
      match s.flight with
      | some f => entryOf (resume s f)
      | none => (s, s.entry .idle)
  | .abandon =>
      match s.flight with
      | some _ =>
          let s' := { s with flight := none }
          (s', s'.entry .abandoned)
      | none => (s, s.entry .idle)

/-- The state after a run, and the entries of its steps. -/
def run (s : State) : List Step → State × List Entry
  | [] => (s, [])
  | a :: as =>
      let (s', e) := step s a
      let (t, es) := run s' as
      (t, e :: es)

end Channel
end LineExchange
