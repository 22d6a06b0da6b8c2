import LineExchange.Channel.Channel
import LineExchange.Machine
import LineExchange.Response
import LineExchange.Server.Traffic

/-!
# Exchange — one request and one response on one connection

A connection that was accepted is served by one exchange: it reads a line, answers it, writes the
answer, and lets the connection go.  This file defines:

* `Exchange.Stage` — where an exchange stands;
* `Exchange` — an exchange with its channel, whose latch is never raised;
* `Exchange.step` — one search of the inbox, one read, the answer, one write, or one flush, with
  what it does to the counters;
* `Exchanges` — the exchanges of a server with the counters that they share, and
  `Exchanges.machine` — all orders in which they go on;
* `Exchange.serve` — one exchange alone, as far as it gets.

However an exchange ends, by success, by an error, by a failure of the responder or by being
dropped, its end is counted once.
-/

namespace LineExchange

inductive ExchangeError where
  | read (error : ChannelError)
  | write (error : ChannelError)
  deriving DecidableEq, Repr

namespace ExchangeError

def message : ExchangeError → String
  | .read e => "read failed: " ++ e.message
  | .write e => "write failed: " ++ e.message

end ExchangeError

namespace Exchange

inductive Result where
  | success
  | failure (error : ExchangeError)
  | crashed
  | dropped
  deriving DecidableEq, Repr

inductive Stage where
  /-- About to search the inbox. -/
  | searching
  /-- About to read. -/
  | awaiting (wait : Wait)
  | answering (line : Bytes)
  /-- The bytes `rest` of the response are left to write, and then to flush. -/
  | writing (response : Bytes) (rest : Bytes)
  /-- The result is known, and the connection is still open. -/
  | ending (result : Result)
  /-- The connection was let go. -/
  | finished (result : Result)
  deriving DecidableEq, Repr

end Exchange

/-- One request and one response on one connection. -/
structure Exchange where
  channel : Channel
  stage : Exchange.Stage
  deriving DecidableEq, Repr

namespace Exchange

/-- The exchange on a connection that was just accepted. -/
def start (w : Wire) : Exchange :=
  ⟨.ofWire w .first, .searching⟩

def sent (x : Exchange) : Bytes :=
  x.channel.wire.sent

def isFinished (x : Exchange) : Bool :=
  match x.stage with
  | .finished _ => true
  | _ => false

/-- One search of the inbox.  A line that is found is counted. -/
def searchStep (x : Exchange) (t : Traffic) : Exchange × Traffic :=
  match x.channel.offer Line.delimiter with
  -- Only whole lines are counted; what a failed read left in the inbox is not.
  | (c, .line line) => (⟨c, .answering line⟩, t.read (.ofNat line.length))
  | (c, .full) => (⟨c, .ending (.failure (.read .bufferFull))⟩, t)
  | (c, .more) => (⟨c, .awaiting .unpolled⟩, t)

/-- One read. -/
def awaitStep (x : Exchange) (wait : Wait) : Exchange :=
  -- No exchange is ever cancelled; it watches a latch that nobody can raise.
  match x.channel.await .never wait with
  | (c, .arrived) => ⟨c, .searching⟩
  | (c, .pending wait) => ⟨c, .awaiting wait⟩
  | (c, .failed e) => ⟨c, .ending (.failure (.read e))⟩

/-- One write, or the flush behind the last, after which the response is counted. -/
def writeStep (x : Exchange) (response rest : Bytes) (t : Traffic) : Exchange × Traffic :=
  match rest with
  | [] =>
      match x.channel.wire.flush with
      | (w, none) =>
          (⟨{ x.channel with wire := w }, .ending .success⟩, t.wrote (.ofNat response.length))
      | (w, some e) =>
          (⟨{ x.channel with wire := w }, .ending (.failure (.write (.io e)))⟩, t)
  | b :: bs =>
      match x.channel.wire.take (b :: bs) with
      | (w, .left rest) => (⟨{ x.channel with wire := w }, .writing response rest⟩, t)
      | (w, .blocked) => (⟨{ x.channel with wire := w }, .writing response (b :: bs)⟩, t)
      | (w, .failed e) =>
          (⟨{ x.channel with wire := w }, .ending (.failure (.write (.io e)))⟩, t)

/-- One step, with what it does to the counters; none is left when the exchange is over. -/
def step (p : Responder) (x : Exchange) (t : Traffic) : Option (Exchange × Traffic) :=
  match x.stage with
  | .searching => some (x.searchStep t)
  | .awaiting wait => some (x.awaitStep wait, t)
  | .answering line =>
      -- Counted as answered before the first byte is written.
      let response := p line
      some ({ x with stage := .writing response response }, t.answered)
  | .writing response rest => some (x.writeStep response rest t)
  | .ending r => some ({ x with stage := .finished r }, t.closed)
  | .finished _ => none

/-- The responder fails on the line before it. -/
def crash (x : Exchange) : Option Exchange :=
  match x.stage with
  | .answering _ => some { x with stage := .ending .crashed }
  | _ => none

/-- The exchange is dropped, where it waits or before it began. -/
def drop (x : Exchange) (t : Traffic) : Option (Exchange × Traffic) :=
  match x.stage with
  | .searching | .awaiting _ | .writing .. => some ({ x with stage := .finished .dropped }, t.closed)
  | _ => none

def steps (p : Responder) : Nat → Exchange → Traffic → Exchange × Traffic
  | 0, x, t => (x, t)
  | n + 1, x, t =>
      match x.step p t with
      | some (x, t) => steps p n x t
      | none => (x, t)

/-- One exchange alone, over a stream with its script, as far as it gets. -/
def serve (p : Responder) (w : Wire) (t : Traffic) : Exchange × Traffic :=
  steps p (2 * (w.arrivals.length + w.uptakes.length) + 8) (start w) t.opened

end Exchange

/-- The exchanges of a server, with the counters that they share. -/
structure Exchanges where
  all : List Exchange
  traffic : Traffic
  deriving DecidableEq, Repr

namespace Exchanges

def fresh : Exchanges :=
  ⟨[], .zero⟩

inductive Event where
  | accept (wire : Wire)
  | acceptFailed
  | arrive (i : Nat) (arrival : Arrival)
  | allow (i : Nat) (uptake : Uptake)
  | failFlush (i : Nat) (error : IoError)
  | step (i : Nat)
  | crash (i : Nat)
  | drop (i : Nat)
  deriving DecidableEq, Repr

/-- Exchange `i` went on. -/
def put (xs : Exchanges) (i : Nat) (r : Exchange × Traffic) : Exchanges :=
  ⟨xs.all.set i r.1, r.2⟩

/-- Something is added to the script of a stream. -/
def onWire (xs : Exchanges) (i : Nat) (f : Wire → Wire) : Option Exchanges :=
  xs.all[i]?.map fun x =>
    let c := { x.channel with wire := f x.channel.wire }
    xs.put i ({ x with channel := c }, xs.traffic)

def accept (xs : Exchanges) (w : Wire) : Exchanges :=
  ⟨xs.all ++ [.start w], xs.traffic.opened⟩

def drop? (xs : Exchanges) (i : Nat) : Option Exchanges :=
  xs.all[i]?.bind fun x => (x.drop xs.traffic).map (xs.put i)

/-- What an event does, when `p` answers the lines. -/
def step? (p : Responder) (xs : Exchanges) : Event → Option Exchanges
  | .accept w => some (xs.accept w)
  | .acceptFailed => some { xs with traffic := xs.traffic.acceptFailed }
  | .arrive i a => xs.onWire i (.expect a)
  | .allow i u => xs.onWire i (.allow u)
  | .failFlush i e => xs.onWire i (.failFlush e)
  | .step i => xs.all[i]?.bind fun x => (x.step p xs.traffic).map (xs.put i)
  | .crash i => xs.all[i]?.bind fun x => x.crash.map fun x => xs.put i (x, xs.traffic)
  | .drop i => xs.drop? i

/-- All orders in which the exchanges of a server go on. -/
def machine (p : Responder) : Machine Exchanges Event :=
  ⟨fresh, step? p⟩

end Exchanges
end LineExchange
