import LineExchange.Machine
import LineExchange.Net.Address
import LineExchange.Net.IoError

/-!
# Listener — the socket on which connections are accepted, one at a time

A listener is started at most once.  Its loop accepts one connection after another until it finds,
after an accept, that it was asked to stop; then it closes the socket.  A loop that is dropped
while it accepts closes the socket too.  This file defines:

* `Listener.Phase` — what a listener shows of itself;
* `Listener.Loop` — where the loop stands;
* `Listener` — the state that starters, stoppers and the loop share;
* `Listener.begin`, `Listener.stop` — what callers do under the lock of the phase;
* `Listener.Event` and `Listener.machine` — everything that can happen, one lock at a time.

Starting takes three steps: the socket is opened under the lock, the phase moves on under the lock
again, and the loop is brought to the workers.  A loop that is dropped before it ever ran closes
the socket and changes nothing else.
-/

namespace LineExchange

namespace Listener

inductive Phase where
  | created
  | listening
  | accepting
  | stopping
  | closed
  deriving DecidableEq, Repr

def Phase.name : Phase → String
  | .created => "Created"
  | .listening => "Listening"
  | .accepting => "Accepting"
  | .stopping => "Stopping"
  | .closed => "Closed"

def Phase.all : List Phase :=
  [.created, .listening, .accepting, .stopping, .closed]

/-- The place of a phase in the order of a listener's life. -/
def Phase.rank : Phase → Nat
  | .created => 0
  | .listening => 1
  | .accepting => 2
  | .stopping => 3
  | .closed => 4

inductive Loop where
  | absent
  /-- The socket is open; the phase has not moved on. -/
  | opened
  /-- The phase has moved on; the loop is not with the workers. -/
  | armed
  /-- It is with the workers, and never ran. -/
  | queued
  /-- About to accept. -/
  | ready
  | accepting
  /-- An accept was completed, well or not. -/
  | completed (ok : Bool)
  /-- The accept is accounted for; about to look whether to stop. -/
  | checking
  /-- About to close the socket. -/
  | leaving
  /-- The socket is closed; about to say that no accept is under way. -/
  | clearing
  /-- About to say that the listener is closed. -/
  | marking
  | finished
  /-- It was dropped before it ever ran. -/
  | lost
  deriving DecidableEq, Repr

inductive StartError where
  | bind (error : IoError)
  | alreadyStarted (phase : Phase)
  deriving DecidableEq, Repr

def StartError.message : StartError → String
  | .bind e => "failed to bind: " ++ e.message
  | .alreadyStarted p => "acceptor already started (state: " ++ p.name ++ ")"

end Listener

/-- What starters, stoppers and the loop of a listener share. -/
structure Listener where
  phase : Listener.Phase
  stopped : Bool
  pending : Nat
  localAddress : Option Endpoint
  loop : Listener.Loop
  socketOpen : Bool
  deriving DecidableEq, Repr

namespace Listener

def fresh : Listener :=
  ⟨.created, false, 0, none, .absent, false⟩

/-- The first step of starting, under the lock: the socket is opened, with the result `r`. -/
def begin (r : Except IoError Endpoint) (l : Listener) : Except StartError Listener :=
  match l.phase with
  | .created =>
      match r with
      | .ok e =>
          .ok { l with
            phase := .listening, localAddress := some e, loop := .opened, socketOpen := true }
      | .error e => .error (.bind e)
  | p => .error (.alreadyStarted p)

def stop (l : Listener) : Listener :=
  { l with
    stopped := true
    phase := match l.phase with
      | .created | .closed => .closed
      | .listening | .accepting | .stopping => .stopping }

inductive Event where
  /-- Somebody starts the listener; opening the socket has the result `r`. -/
  | start (r : Except IoError Endpoint)
  /-- The starter moves the phase on. -/
  | arm
  /-- The starter brings the loop to the workers, who may be gone. -/
  | spawn (up : Bool)
  | stop
  | step
  /-- The accept under way is completed, well or not. -/
  | complete (ok : Bool)
  /-- The workers drop the loop where it waits. -/
  | drop

/-- A step of the loop that neither waits nor counts. -/
def loopStep (l : Listener) : Option Listener :=
  match l.loop with
  | .queued => some { l with loop := .ready }
  | .ready => some { l with pending := l.pending + 1, loop := .accepting }
  | .completed _ => some { l with loop := .checking }
  | .checking => some { l with loop := if l.stopped then .leaving else .ready }
  -- The end of the loop, in the order in which its locals go away.
  | .leaving => some { l with socketOpen := false, loop := .clearing }
  | .clearing => some { l with pending := 0, loop := .marking }
  | .marking => some { l with phase := .closed, loop := .finished }
  | .absent | .opened | .armed | .accepting | .finished | .lost => none

/-- The workers drop the loop where it waits: the socket is closed first. -/
def dropLoop (l : Listener) : Option Listener :=
  match l.loop with
  -- The guard that clears and marks is made by the first step, which never came.
  | .queued => some { l with socketOpen := false, loop := .lost }
  | .accepting => some { l with socketOpen := false, loop := .clearing }
  | _ => none

def step? (l : Listener) : Event → Option Listener
  | .start r =>
      match l.begin r with
      | .ok l => some l
      | .error _ => some l
  | .arm =>
      match l.loop with
      | .opened =>
          -- Somebody may have asked it to stop since it was started.
          let phase := if l.phase = .listening then .accepting else l.phase
          some { l with phase := phase, loop := .armed }
      | _ => none
  | .spawn up =>
      match l.loop with
      | .armed =>
          if up then some { l with loop := .queued }
          else some { l with socketOpen := false, loop := .lost }
      | _ => none
  | .stop => some l.stop
  | .step => l.loopStep
  | .complete ok =>
      match l.loop with
      | .accepting => some { l with pending := l.pending - 1, loop := .completed ok }
      | _ => none
  | .drop => l.dropLoop

/-- All orders in which a listener is used. -/
def machine : Machine Listener Event :=
  ⟨fresh, step?⟩

end Listener
end LineExchange
