import LineExchange.Machine

/-!
# Work count — how much work is outstanding, and who waits for none

Work is counted under a lock, and any number of threads wait until the count is zero.  A thread
that finds work outstanding parks; it looks again only after a wake-up.  This file defines:

* `Waiter` — where a waiting thread stands;
* `Count` — the count with its waiters, and what is done to it under the lock;
* `Count.machine` — all orders in which threads can do so.

Every fall to zero wakes all parked threads.  A wake-up may also come without a cause.
-/

namespace LineExchange

/-- Where a thread stands that waits for the count to be zero. -/
inductive Waiter where
  /-- It has not looked yet. -/
  | arriving
  | parked
  /-- It was woken and has not looked again. -/
  | woken
  | returned
  deriving DecidableEq, Repr

namespace Waiter

/-- A parked thread is woken. -/
def wake : Waiter → Waiter
  | .parked => .woken
  | w => w

/-- A thread that does not sleep looks whether work is outstanding. -/
def look (busy : Bool) : Waiter → Waiter
  | .arriving | .woken => if busy then .parked else .returned
  | w => w

/-- Whether a thread is about to look. -/
def isAwake : Waiter → Bool
  | .arriving | .woken => true
  | .parked | .returned => false

end Waiter

/-- A count of outstanding work, with the threads that wait for none. -/
structure Count where
  outstanding : Nat
  waiters : List Waiter
  deriving DecidableEq, Repr

namespace Count

def zero : Count :=
  ⟨0, []⟩

def isBusy (c : Count) : Bool :=
  0 < c.outstanding

def acquire (c : Count) : Count :=
  { c with outstanding := c.outstanding + 1 }

/-- One unit less; all parked threads are woken when none is left. -/
def release (c : Count) : Count :=
  -- Under the lock on which the threads sleep, so none parks between the two.
  let n := c.outstanding - 1
  ⟨n, if n = 0 then c.waiters.map Waiter.wake else c.waiters⟩

/-- A thread begins to wait. -/
def enter (c : Count) : Count :=
  { c with waiters := c.waiters ++ [.arriving] }

/-- Every thread that does not sleep looks. -/
def settle (c : Count) : Count :=
  { c with waiters := c.waiters.map (Waiter.look c.isBusy) }

inductive Event where
  | acquire
  | release
  | enter
  | look (i : Nat)
  /-- Thread `i` is woken without a cause. -/
  | wake (i : Nat)
  deriving DecidableEq, Repr

def step? (c : Count) : Event → Option Count
  | .acquire => some c.acquire
  | .release => some c.release
  | .enter => some c.enter
  | .look i =>
      match c.waiters[i]? with
      | some w =>
          if w.isAwake then some { c with waiters := c.waiters.set i (w.look c.isBusy) } else none
      | none => none
  | .wake i =>
      match c.waiters[i]? with
      | some .parked => some { c with waiters := c.waiters.set i .woken }
      | _ => none

/-- All orders in which threads use a count. -/
def machine : Machine Count Event :=
  ⟨zero, step?⟩

end Count
end LineExchange
