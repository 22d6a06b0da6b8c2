import LineExchange.Client.Client
import LineExchange.Net.Host

/-!
# Client run — one client on a host, used step by step

A run starts with a client.  Its owner submits and cancels requests, asks about them, waits for
reports, and at last closes the client in one of three ways.  This file defines:

* `Client.settle` — every trip goes as far as it can go by itself;
* `Client.Step` and `Client.Reply` — what can be done, and what is answered;
* `Client.Watched` with `Client.step` and `Client.run` — the runs.

While the owner is busy with the client, trips stay where they are; while it waits, every trip
comes home that can.  In between there are pauses, in which the owner does something else: a trip
takes longer than one pause, and comes home in the second at the latest.

Reports are heard in the order of their coming.  The owner does not have to wait for a report that
is the next to be heard.
-/

namespace LineExchange
namespace Client

/-- The client after those of the events that can happen. -/
def advance (c : Client) (es : List Event) : Client :=
  (machine c.crew.size).advance c es

/-- More steps than a trip can take over the stream that it was given. -/
def budget : Except IoError Wire → Nat
  | .ok w => 2 * (w.arrivals.length + w.uptakes.length) + 16
  | .error _ => 16

/-- Trip `j` goes as far as it can. -/
def settleTrip (h : Host) (c : Client) (j : Nat) : Client :=
  match c.desk.tickets[j]? with
  | none => c
  | some k =>
      let result := h.dial k.endpoint
      let there : List Event := [.enqueue j, .connect j (some result)]
      c.advance (there ++ List.replicate (budget result) (.step j))

/-- The trips that are on their way: those whose jobs are counted. -/
def underWay (c : Client) : List Nat :=
  c.crew.jobs.zipIdx.filterMap fun (job, j) => if job.isCounted then some j else none

/-- Every trip from trip `n` on goes as far as it can; those that callbacks submit follow, at most
`rounds` times. -/
def settleFrom (h : Host) : Nat → Nat → Client → Client
  | 0, _, c => c
  | rounds + 1, n, c =>
      settleFrom h rounds c.trips.length ((c.underWay.filter (n ≤ ·)).foldl (settleTrip h) c)

/-- How often the callbacks of a client submit again, one behind the other. -/
def depth (c : Client) : Nat :=
  (c.again.map List.length).foldl max 0

/-- Every trip goes as far as it can, and those that callbacks submit follow. -/
def settle (h : Host) (c : Client) : Client :=
  settleFrom h (c.depth + 1) 0 c

def lookAll (c : Client) : Client :=
  c.advance ((List.range c.crew.count.waiters.length).map .look)

/-- The loop goes down if it can: the jobs that are left are dropped. -/
def windUp (c : Client) : Client :=
  let c := c.lookAll.advance [.join]
  (c.advance ((List.range c.trips.length).map .discard)).advance [.joined]

inductive Step where
  | pause
  | submit (submission : Submission)
  | cancel (id : UInt32)
  | isActive (id : UInt32)
  | active
  | wait (id : UInt32)
  /-- The owner closes the client and waits for every report. -/
  | shutdown
  /-- The owner lets go of the client: every request is cancelled, and every report waited for. -/
  | drop
  /-- The owner lets go of the client where it cannot wait. -/
  | dropUnawaited
  deriving DecidableEq, Repr

inductive Reply where
  | nothing
  | submitted
  | duplicate (id : UInt32)
  | flag (value : Bool)
  | count (value : Nat)
  | report (report : Report)
  /-- The reports that were not waited for, by name. -/
  | reports (reports : List Report)
  | none
  deriving DecidableEq, Repr

/-- A client with the reports that were not waited for. -/
structure Watched where
  client : Client
  /-- How many reports were taken note of. -/
  noted : Nat
  unread : List Report
  /-- How many trips had set out at the last pause. -/
  departed : Nat
  deriving DecidableEq, Repr

namespace Watched

def ofClient (c : Client) : Watched :=
  ⟨c, 0, [], 0⟩

/-- Takes note of the reports of a client that went on. -/
def note (w : Watched) (c : Client) : Watched :=
  { w with
    client := c
    noted := c.reports.length
    unread := w.unread ++ c.reports.drop w.noted }

def take (w : Watched) (id : UInt32) : Watched × Reply :=
  match w.unread.find? (·.id == id) with
  | some r => ({ w with unread := w.unread.erase r }, .report r)
  | Option.none => (w, .none)

/-- Hears the first report under a name, and waits for it unless it is the next to be heard. -/
def hear (h : Host) (w : Watched) (id : UInt32) : Watched × Reply :=
  if w.unread.head?.any (·.id == id) then w.take id
  else (w.note (w.client.settle h)).take id

/-- A while goes by: the trips come home that had set out at the last pause, if they can. -/
def pause (h : Host) (w : Watched) : Watched :=
  let c := w.client
  let due := c.underWay.filter (· < w.departed)
  { w.note (due.foldl (settleTrip h) c) with departed := c.trips.length }

/-- Takes every report, by name, and under one name in the order of their coming. -/
def takeAll (w : Watched) : Watched × Reply :=
  ({ w with unread := [] }, .reports (w.unread.mergeSort fun a b => a.id ≤ b.id))

end Watched

def step (h : Host) (w : Watched) : Step → Watched × Reply
  | .pause => (w.pause h, .nothing)
  | .submit s =>
      let (c, accepted) := w.client.submit s
      ({ w with client := c }, if accepted then .submitted else .duplicate s.id)
  | .cancel id =>
      let (c, found) := w.client.cancel id
      ({ w with client := c }, .flag found)
  | .isActive id => (w, .flag (w.client.isActive id))
  | .active => (w, .count w.client.activeCount)
  | .wait id => w.hear h id
  | .shutdown => (w.note ((w.client.advance [.shutdown]).settle h).windUp).takeAll
  | .drop => (w.note ((w.client.advance [.cancelAll, .shutdown]).settle h).windUp).takeAll
  | .dropUnawaited => (w.note (w.client.advance [.cancelAll, .stop]).windUp).takeAll

def run (h : Host) (w : Watched) : List Step → List Reply
  | [] => []
  | a :: as =>
      let (w, r) := step h w a
      r :: run h w as

end Client
end LineExchange
