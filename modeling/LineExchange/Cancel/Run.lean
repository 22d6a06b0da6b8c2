import LineExchange.Cancel.Latch

/-!
# Cancel run — one latch, its holder, and any number of watchers

A run starts with a latch, its holder and one watcher.  This file defines:

* `Cancel.Step` and `Cancel.Reply` — what can be done, and what is answered;
* `Cancel.State` with `Cancel.step` and `Cancel.run` — the runs;
* `Cancel.State.raised?` — what a watcher shows.

Watchers made by `never` watch a latch of their own that nobody can raise, and so do their copies.
A watcher that waits can neither be copied nor asked.
-/

namespace LineExchange
namespace Cancel

/-- Something that watches: the run's latch, or one that is never raised. -/
structure Watcher where
  /-- Whether it watches the run's latch. -/
  ours : Bool
  signal : Signal
  /-- The wait in progress. -/
  wait : Option Wait
  deriving DecidableEq, Repr

structure State where
  latch : Latch
  watchers : List Watcher
  deriving DecidableEq, Repr

inductive Step where
  | raise
  | release
  /-- A watcher of a latch that is never raised appears. -/
  | never
  /-- Watcher `i` is copied. -/
  | copy (i : Nat)
  /-- Watcher `i` begins to wait, or its wait goes on. -/
  | wait (i : Nat)
  deriving DecidableEq, Repr

inductive Reply where
  | raised
  | noHolder
  | released (wasHeld : Bool)
  | added (i : Nat)
  | busy
  | ended
  | pending
  | unknown
  deriving DecidableEq, Repr

namespace State

def start : State :=
  ⟨.fresh, [⟨true, .first, none⟩]⟩

def latchOf (s : State) (w : Watcher) : Latch :=
  if w.ours then s.latch else .never

/-- What a watcher shows of its latch; nothing while it waits. -/
def raised? (s : State) (w : Watcher) : Option Bool :=
  match w.wait with
  | none => some (s.latchOf w).raised
  | some _ => none

end State

def pollWatcher (s : State) (i : Nat) (w : Watcher) : State × Reply :=
  let (signal, left) := w.signal.poll (s.latchOf w) (w.wait.getD .unpolled)
  let s := { s with watchers := s.watchers.set i { w with signal, wait := left } }
  (s, if left.isNone then .ended else .pending)

def step (s : State) : Step → State × Reply
  | .raise =>
      if s.latch.held then ({ s with latch := s.latch.raise }, .raised) else (s, .noHolder)
  | .release => ({ s with latch := s.latch.release }, .released s.latch.held)
  | .never =>
      ({ s with watchers := s.watchers ++ [⟨false, .first, none⟩] }, .added s.watchers.length)
  | .copy i =>
      match s.watchers[i]? with
      | none => (s, .unknown)
      | some w =>
          if w.wait.isSome then (s, .busy)
          else ({ s with watchers := s.watchers ++ [w] }, .added s.watchers.length)
  | .wait i =>
      match s.watchers[i]? with
      | none => (s, .unknown)
      | some w => pollWatcher s i w

/-- The states and answers of a run, in order. -/
def run (s : State) : List Step → List (State × Reply)
  | [] => []
  | a :: as =>
      let r := step s a
      r :: run r.1 as

end Cancel
end LineExchange
