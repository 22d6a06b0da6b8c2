import LineExchange.Net.IoError
import LineExchange.Work.Count

/-!
# Crew — worker threads, the jobs they carry out, and how they are sent home

A crew carries out jobs on a loop.  Work is outstanding while the crew keeps itself alive, while
somebody holds a guard, and while a job is neither over nor dropped.  This file defines:

* `Job` — where a job stands;
* `Closing` — how far the crew's end has come;
* `Crew` — the state, `Crew.Event` — what can happen, one lock at a time, and `Crew.machine`.

A crew that is closed gracefully first gives up its own unit of work, then waits for the count to
be zero, and only then takes the loop down; one that is stopped takes it down at once.  When the
loop goes down, the jobs that are left on it are dropped, and a job that comes later is dropped
where it stands.
-/

namespace LineExchange

inductive Job where
  /-- It is counted, and on its way to the loop. -/
  | counted
  | live
  /-- It took its last step and is still counted; it may have failed. -/
  | leaving (failed : Bool)
  | done
  | failed
  | dropped
  deriving DecidableEq, Repr

namespace Job

/-- Whether a job counts as outstanding work. -/
def isCounted : Job → Bool
  | .counted | .live | .leaving _ => true
  | .done | .failed | .dropped => false

end Job

/-- How far the end of a crew has come. -/
inductive Closing where
  | staffed
  /-- It gave up its own unit of work, and waiter `waiter` waits for the count to be zero. -/
  | draining (waiter : Nat)
  /-- The loop goes down. -/
  | joining
  | closed
  deriving DecidableEq, Repr

/-- Worker threads with their loop. -/
structure Crew where
  size : Nat
  count : Count
  /-- Whether the crew holds a unit of work of its own. -/
  keepsAlive : Bool
  /-- The guards that were taken, and whether each is still held. -/
  guards : List Bool
  jobs : List Job
  closing : Closing
  deriving DecidableEq, Repr

namespace Crew

/-- A crew of `size` threads. -/
def ofSize (size : Nat) : Crew where
  size := size
  count := Count.zero.acquire
  keepsAlive := true
  guards := []
  jobs := []
  closing := .staffed

def noThreads : IoError :=
  .custom .invalidInput "worker pool needs at least one thread"

/-- A crew of `size` threads, of which there must be one. -/
def start? (size : Nat) : Except IoError Crew :=
  if size = 0 then .error noThreads else .ok (ofSize size)

def isUp (c : Crew) : Bool :=
  match c.closing with
  | .staffed | .draining _ => true
  | .joining | .closed => false

def outstanding (c : Crew) : Nat :=
  c.count.outstanding

/-- Who takes a guard or brings a job. -/
inductive Origin where
  | owner
  | job (j : Nat)
  | guard (g : Nat)
  /-- Anybody else who knows the loop. -/
  | stranger
  deriving DecidableEq, Repr

/-- Whether work may come from an origin that answers for it: the owner before the crew is closed,
a job that runs, or the holder of a guard. -/
def admits (c : Crew) : Origin → Bool
  | .owner => c.closing == .staffed
  | .job j => c.jobs[j]? == some .live
  | .guard g => c.guards[g]? == some true
  | .stranger => false

inductive Event where
  | takeGuard (origin : Origin)
  | dropGuard (g : Nat)
  /-- A new job is counted. -/
  | count (origin : Origin)
  /-- Job `j` comes to the loop. -/
  | enqueue (j : Nat)
  | work (j : Nat)
  | finish (j : Nat) (failed : Bool)
  /-- Job `j` is counted no more. -/
  | leave (j : Nat)
  | shutdown
  | stop
  | enter
  | look (i : Nat)
  /-- Waiting thread `i` is woken without a cause. -/
  | wake (i : Nat)
  /-- The closing thread, having seen no work, takes the loop down. -/
  | join
  /-- Job `j` is dropped as the loop goes down. -/
  | discard (j : Nat)
  /-- The last thread is gone. -/
  | joined
  deriving DecidableEq, Repr

def giveUp (c : Crew) : Crew :=
  if c.keepsAlive then { c with keepsAlive := false, count := c.count.release } else c

/-- Job `j` is no more counted, and stands at `job`. -/
def uncount (c : Crew) (j : Nat) (job : Job) : Crew :=
  { c with count := c.count.release, jobs := c.jobs.set j job }

def step? (c : Crew) : Event → Option Crew
  | .takeGuard _ => some { c with count := c.count.acquire, guards := c.guards ++ [true] }
  | .dropGuard g =>
      match c.guards[g]? with
      | some true => some { c with count := c.count.release, guards := c.guards.set g false }
      | _ => none
  | .count _ => some { c with count := c.count.acquire, jobs := c.jobs ++ [.counted] }
  | .enqueue j =>
      match c.jobs[j]? with
      | some .counted =>
          -- A loop that is going down drops what comes, and its unit of work with it.
          if c.isUp then some { c with jobs := c.jobs.set j .live } else some (c.uncount j .dropped)
      | _ => none
  | .work j =>
      match c.jobs[j]?, c.closing with
      | some .live, .closed => none
      | some .live, _ => some c
      | _, _ => none
  | .finish j failed =>
      match c.jobs[j]?, c.closing with
      | some .live, .closed => none
      | some .live, _ => some { c with jobs := c.jobs.set j (.leaving failed) }
      | _, _ => none
  | .leave j =>
      match c.jobs[j]? with
      | some (.leaving true) => some (c.uncount j .failed)
      | some (.leaving false) => some (c.uncount j .done)
      | _ => none
  | .shutdown =>
      match c.closing with
      | .staffed =>
          -- The own unit goes first, else the count would never come to zero.
          let c := c.giveUp
          some { c with count := c.count.enter, closing := .draining c.count.waiters.length }
      | _ => none
  | .stop =>
      match c.closing with
      | .staffed => some { c.giveUp with closing := .joining }
      | _ => none
  | .enter => some { c with count := c.count.enter }
  | .look i => (c.count.step? (.look i)).map fun n => { c with count := n }
  | .wake i => (c.count.step? (.wake i)).map fun n => { c with count := n }
  | .join =>
      match c.closing with
      | .draining i =>
          if c.count.waiters[i]? = some .returned then some { c with closing := .joining } else none
      | _ => none
  | .discard j =>
      match c.jobs[j]?, c.closing with
      | some .live, .joining => some (c.uncount j .dropped)
      | _, _ => none
  | .joined =>
      match c.closing with
      | .joining =>
          if c.jobs.all fun j => j != .live && j != .leaving true && j != .leaving false then
            some { c with closing := .closed }
          else none
      | _ => none

/-- All orders in which threads use a crew of `size` threads. -/
def machine (size : Nat) : Machine Crew Event :=
  ⟨ofSize size, step?⟩

/-- What an event does when only those bring work who answer for it. -/
def orderlyStep? (c : Crew) : Event → Option Crew
  | .takeGuard o => if c.admits o then c.step? (.takeGuard o) else none
  | .count o => if c.admits o then c.step? (.count o) else none
  | e => c.step? e

/-- All orders in which threads use a crew when only those bring work who answer for it. -/
def orderly (size : Nat) : Machine Crew Event :=
  ⟨ofSize size, orderlyStep?⟩

end Crew
end LineExchange
