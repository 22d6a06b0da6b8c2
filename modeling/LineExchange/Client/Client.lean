import LineExchange.Client.Desk
import LineExchange.Client.Trip
import LineExchange.Work.Crew

/-!
# Client — requests under way together

A client has a desk for its tickets and a crew for its trips; trip `j` goes with ticket `j` and
job `j`.  This file defines:

* `Submission` — a request, and what its callback submits when it is called;
* `Report` — one call of a callback;
* `Client` — the state, `Client.Event` — what can happen, one lock at a time, and
  `Client.machine` — all orders in which it can.

A name is in use from the submission of its request until the trip has given it back, which is
before the callback.  A submission of a name in use is turned away and leaves no trace.
-/

namespace LineExchange

structure Submission where
  id : UInt32
  endpoint : Endpoint
  payload : Bytes
  /-- What the callback submits under the same name, and then the callback of that, and so on. -/
  again : List Bytes
  deriving DecidableEq, Repr

/-- What a callback found when it submitted again. -/
structure Resubmission where
  inUse : Bool
  accepted : Bool
  deriving DecidableEq, Repr

structure Report where
  trip : Nat
  id : UInt32
  outcome : Outcome
  resubmission : Option Resubmission
  deriving DecidableEq, Repr

/-- Requests under way together. -/
structure Client where
  desk : Desk
  trips : List Trip
  /-- What the callback of each trip, and then those behind it, submit again. -/
  again : List (List Bytes)
  crew : Crew
  reports : List Report
  deriving DecidableEq, Repr

namespace Client

/-- The text for a submission whose name is in use. -/
def duplicateMessage (id : UInt32) : String :=
  "request #" ++ toString id.toNat ++ " is already active"

def ofThreads (threads : Nat) : Client :=
  ⟨.empty, [], [], .ofSize threads, []⟩

/-- A client with `threads` workers, of which there must be one. -/
def start? (threads : Nat) : Except IoError Client :=
  (Crew.start? threads).map fun crew => { ofThreads threads with crew }

def isActive (c : Client) (id : UInt32) : Bool :=
  c.desk.active.contains id

def activeCount (c : Client) : Nat :=
  c.desk.active.size

/-- A request is submitted, if its name is free: it gets a ticket, a trip and a job. -/
def submit (s : Submission) (c : Client) : Client × Bool :=
  let k := c.trips.length
  match c.desk.active.insert? s.id k with
  | none => (c, false)
  | some r =>
      -- Counted before it comes to the loop, so the crew waits for it from now on.
      let crew := { c.crew with count := c.crew.count.acquire, jobs := c.crew.jobs ++ [.counted] }
      ({ c with
          desk := { c.desk.issue (.issue s.id s.endpoint s.payload) with active := r }
          trips := c.trips ++ [.start]
          again := c.again ++ [s.again]
          crew },
        true)

def cancel (id : UInt32) (c : Client) : Client × Bool :=
  let (desk, found) := c.desk.cancel id
  ({ c with desk }, found)

inductive Event where
  | submit (submission : Submission)
  /-- The job of trip `j` comes to the loop. -/
  | enqueue (j : Nat)
  /-- No socket can be opened for trip `j`. -/
  | noSocket (j : Nat) (error : IoError)
  /-- Trip `j` looks at its latch, and at what came of connecting. -/
  | connect (j : Nat) (result : Option (Except IoError Wire))
  | step (j : Nat)
  | arrive (j : Nat) (arrival : Arrival)
  | allow (j : Nat) (uptake : Uptake)
  | failFlush (j : Nat) (error : IoError)
  | cancel (id : UInt32)
  | cancelAll
  | shutdown
  | stop
  /-- The closing thread, or another that waits, looks. -/
  | look (i : Nat)
  /-- A waiting thread is woken without a cause. -/
  | wake (i : Nat)
  /-- The closing thread takes the loop down. -/
  | join
  | discard (j : Nat)
  | joined

def onCrew (c : Client) (e : Crew.Event) : Option Client :=
  (c.crew.step? e).map fun crew => { c with crew }

/-- The client with another trip `j`. -/
def setTrip (c : Client) (j : Nat) (t : Trip) : Client :=
  { c with trips := c.trips.set j t }

/-- Trip `j`, if its job may take steps. -/
def running? (c : Client) (j : Nat) : Option Trip :=
  match c.crew.step? (.work j) with
  | some _ => c.trips[j]?
  | none => none

/-- The callback of trip `j` is over, and its job takes its last step. -/
def report (c : Client) (j : Nat) (t : Trip) (id : UInt32) (o : Outcome)
    (r : Option Resubmission) : Option Client :=
  let entry : Report := ⟨j, id, o, r⟩
  { c.setTrip j (t.standing .home) with reports := c.reports ++ [entry] }.onCrew (.finish j false)

/-- One step of trip `j` with ticket `k`. -/
def tripStep (c : Client) (j : Nat) (k : Ticket) (t : Trip) : Option Client :=
  match t.stage with
  | .closing _ => t.close.map (c.setTrip j)
  | .retiring e =>
      -- By name and not by trip: whoever has the name gives it back.
      let (desk, _) := c.desk.retire k.id
      some ({ c with desk }.setTrip j (t.standing (.judging e)))
  -- From here on no cancellation by name finds the trip, so the flag keeps its value.
  | .judging e => some (c.setTrip j (t.standing (.reporting (e.outcome k.cancelled))))
  | .reporting o =>
      match c.again[j]? with
      | some (payload :: later) =>
          some (c.setTrip j (t.standing (.resubmitting o (c.isActive k.id) payload later)))
      | _ => c.report j t k.id o none
  | .resubmitting o inUse payload later =>
      -- The callback is still running, and whatever becomes of its request, it comes to its end.
      let (c, accepted) := c.submit ⟨k.id, k.endpoint, payload, later⟩
      c.report j t k.id o (some ⟨inUse, accepted⟩)
  | _ => (t.step k).map (c.setTrip j)

def step? (c : Client) : Event → Option Client
  | .submit s => if c.crew.closing = .staffed then some (c.submit s).1 else none
  | .enqueue j => c.onCrew (.enqueue j)
  | .noSocket j e =>
      match c.running? j, c.desk.tickets[j]? with
      | some t, some _ => (t.refuse e).map (c.setTrip j)
      | _, _ => none
  | .connect j result =>
      match c.running? j, c.desk.tickets[j]? with
      | some t, some k => (t.connect k result).map (c.setTrip j)
      | _, _ => none
  | .step j =>
      match c.trips[j]? with
      | some ⟨.home, _, _⟩ => c.onCrew (.leave j)
      | _ =>
          match c.running? j, c.desk.tickets[j]? with
          | some t, some k => c.tripStep j k t
          | _, _ => none
  | .arrive j a => c.trips[j]?.map fun t => c.setTrip j (t.onWire (.expect a))
  | .allow j u => c.trips[j]?.map fun t => c.setTrip j (t.onWire (.allow u))
  | .failFlush j e => c.trips[j]?.map fun t => c.setTrip j (t.onWire (.failFlush e))
  | .cancel id => some (c.cancel id).1
  | .cancelAll => some { c with desk := c.desk.cancelAll }
  | .shutdown => c.onCrew .shutdown
  | .stop => c.onCrew .stop
  | .look i => c.onCrew (.look i)
  | .wake i => c.onCrew (.wake i)
  | .join => c.onCrew .join
  | .discard j =>
      match c.trips[j]? with
      | some t =>
          (c.onCrew (.discard j)).map fun c =>
            c.setTrip j { t with stage := .dropped, socketOpen := false }
      | none => none
  | .joined => c.onCrew .joined

/-- All orders in which a client with `threads` workers is used. -/
def machine (threads : Nat) : Machine Client Event :=
  ⟨ofThreads threads, step?⟩

end Client
end LineExchange
