import LineExchange.Work.Crew

/-!
# Work run — one crew, used step by step

A run starts with a crew.  Its owner takes guards and brings jobs under names, lets jobs end, has
threads wait, and closes the crew in one way or another.  This file defines:

* `Work.Step` and `Work.Reply` — what can be done, and what is answered;
* `Work.settle` — what happens by itself after every step;
* `Work.State` with `Work.step` and `Work.run` — the runs.

Between two steps everything happens that can happen without the owner: threads that are awake
look, and a crew whose work has drained is taken down.
-/

namespace LineExchange
namespace Work

structure State where
  crew : Crew
  owned : Bool
  /-- Whether the owner closed it gracefully. -/
  asked : Bool
  guards : List (String × Nat)
  /-- The jobs that end when they are told to, by name. -/
  waiting : List (String × Nat)
  /-- The names of all jobs, in the order of the crew's jobs. -/
  names : List String
  threads : List Nat
  deriving DecidableEq, Repr

inductive Step where
  | takeGuard (name : String)
  | dropGuard (name : String)
  /-- A job that ends when it is told to. -/
  | spawn (name : String)
  | finish (name : String)
  /-- A job that ends at once. -/
  | spawnBrief (name : String)
  /-- A job that fails at once. -/
  | spawnFailing (name : String)
  | waitThread
  | size
  | describe
  | shutdown
  /-- The owner stops the crew, or lets go of it. -/
  | stop
  deriving DecidableEq, Repr

inductive Reply where
  | nothing
  | flag (value : Bool)
  | count (value : Nat)
  | text (value : String)
  /-- The job ran on a worker, whose name is known if there is one worker only. -/
  | worker (name : Option String)
  /-- The owner has no crew any more. -/
  | gone
  deriving DecidableEq, Repr

def workerName (i : Nat) : String :=
  "lifeline-worker-" ++ toString i

def describe (c : Crew) : String :=
  "WorkerPool \x7b size: " ++ toString c.size ++ ", outstanding: " ++ toString c.outstanding
    ++ " \x7d"

/-- The crew after those of the events that can happen. -/
def advance (c : Crew) (es : List Crew.Event) : Crew :=
  (Crew.machine c.size).advance c es

def lookAll (c : Crew) : Crew :=
  advance c ((List.range c.count.waiters.length).map .look)

/-- What happens by itself. -/
def settle (c : Crew) : Crew :=
  let c := advance (lookAll c) [.join]
  lookAll (advance c ((List.range c.jobs.length).map .discard ++ [.joined]))

namespace State

def ofCrew (c : Crew) : State where
  crew := c
  owned := true
  asked := false
  guards := []
  waiting := []
  names := []
  threads := []

/-- The names of the jobs that stand at one of the stages `p`, sorted. -/
def jobsAt (s : State) (p : Job → Bool) : List String :=
  ((s.names.zip s.crew.jobs).filter (fun j => p j.2)).map Prod.fst |>.mergeSort

def done (s : State) : List String :=
  s.jobsAt (· == .done)

/-- The jobs that were dropped or failed. -/
def dropped (s : State) : List String :=
  s.jobsAt fun j => j == .dropped || j == .failed

def returned (s : State) : Nat :=
  s.threads.countP fun i => s.crew.count.waiters[i]? == some .returned

/-- Whether a graceful close has come to its end; nothing if there was none. -/
def shutdownReturned (s : State) : Option Bool :=
  if s.asked then some (s.crew.closing == .closed) else none

/-- The state after events of the crew and all that follows by itself. -/
def after (s : State) (es : List Crew.Event) : State :=
  { s with crew := settle (advance s.crew es) }

/-- The state after a job came to the loop, and after the events `es` that the job causes. -/
def bring (s : State) (name : String) (es : Nat → List Crew.Event) : State :=
  let j := s.crew.jobs.length
  let arrival : List Crew.Event := [.count .stranger, .enqueue j]
  { s with names := s.names ++ [name] }.after (arrival ++ es j)

end State

def step (s : State) : Step → State × Reply
  | .takeGuard name =>
      let s' := s.after [.takeGuard .stranger]
      ({ s' with guards := (name, s.crew.guards.length) :: s.guards }, .nothing)
  | .dropGuard name =>
      match s.guards.lookup name with
      | some g =>
          ({ s with guards := s.guards.filter (·.1 != name) }.after [.dropGuard g], .flag true)
      | none => (s, .flag false)
  | .spawn name =>
      let s' := s.bring name fun _ => []
      ({ s' with waiting := (name, s.crew.jobs.length) :: s.waiting }, .nothing)
  | .finish name =>
      match s.waiting.lookup name with
      | some j =>
          let alive := s.crew.jobs[j]? == some .live
          ({ s with waiting := s.waiting.filter (·.1 != name) }.after [.finish j false, .leave j],
            .flag alive)
      | none => (s, .nothing)
  | .spawnBrief name =>
      let up := s.crew.isUp
      let name? := if s.crew.size = 1 then some (workerName 0) else none
      (s.bring name fun j => [.work j, .finish j false, .leave j],
        if up then .worker name? else .nothing)
  | .spawnFailing name => (s.bring name fun j => [.work j, .finish j true, .leave j], .nothing)
  | .waitThread =>
      let s' := { s with threads := s.threads ++ [s.crew.count.waiters.length] }
      (s'.after [.enter], .nothing)
  | .size => (s, if s.owned then .count s.crew.size else .nothing)
  | .describe => (s, if s.owned then .text (describe s.crew) else .nothing)
  | .shutdown =>
      if s.owned then ({ s with owned := false, asked := true }.after [.shutdown], .nothing)
      else (s, .gone)
  | .stop =>
      if s.owned then ({ s with owned := false }.after [.stop], .nothing) else (s, .gone)

def run (s : State) : List Step → List (State × Reply)
  | [] => []
  | a :: as =>
      let r := step s a
      r :: run r.1 as

end Work
end LineExchange
