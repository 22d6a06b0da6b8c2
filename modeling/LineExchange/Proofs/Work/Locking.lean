import LineExchange.Proofs.Work.Waking

/-!
# Locking — no wake-up is lost, however the steps under the lock are mixed with others

A release takes a unit off and then wakes the sleepers, and a waiter looks and then parks or
returns.  Both do so with the lock in their hands, but whoever needs no lock may come in between: a
thread that begins to wait, and a wake-up without a cause.  This file defines:

* `Count.Holder`, `Count.Locked` — a count with whoever holds its lock between two steps;
* `Locked.machine` — all orders of the steps;
* `Locked.settled` — the count as the holder of the lock leaves it.

What comes between the two steps could as well have come behind the second (`settled_of_move`), so a
count that is used step by step is used as `Count.machine` says (`reachable_settled`), and what is
known of the runs of that holds of it (`no_wakeup_is_lost`).
-/

namespace LineExchange
namespace Count

inductive Holder where
  /-- It has taken a unit off, and has woken nobody yet. -/
  | releasing
  /-- Waiter `i` has looked, and is about to park or to return. -/
  | looking (i : Nat) (next : Waiter)
  deriving DecidableEq, Repr

structure Locked where
  count : Count
  holder : Option Holder
  deriving DecidableEq, Repr

def subtract (c : Count) : Count :=
  { c with outstanding := c.outstanding - 1 }

def notify (c : Count) : Count :=
  { c with waiters := if c.outstanding = 0 then c.waiters.map Waiter.wake else c.waiters }

def place (c : Count) (i : Nat) (w : Waiter) : Count :=
  { c with waiters := c.waiters.set i w }

variable {c : Count} {i j : Nat} {w : Waiter}

theorem notify_enter (c : Count) : c.enter.notify = c.notify.enter := by
  by_cases zero : c.outstanding = 0 <;> simp [notify, enter, zero, Waiter.wake]

theorem notify_place_woken (c : Count) (i : Nat) :
    (c.place i .woken).notify = c.notify.place i .woken := by
  by_cases zero : c.outstanding = 0 <;> simp [notify, place, zero, List.map_set, Waiter.wake]

theorem place_enter (inside : i < c.waiters.length) :
    c.enter.place i w = (c.place i w).enter := by
  simp only [place, enter, List.set_append_left _ _ inside]

theorem place_comm (c : Count) {w w' : Waiter} (other : i ≠ j) :
    (c.place i w).place j w' = (c.place j w').place i w := by
  simp only [place, List.set_comm _ _ other]

/-- A waiter that goes on to where it is stays there. -/
theorem place_self (hget : c.waiters[i]? = some w) : c.place i w = c := by
  rcases List.getElem?_eq_some_iff.1 hget with ⟨inside, rfl⟩
  simp only [place, List.set_getElem_self]

/-- A sleeper that is stirred while a release is under way is one that the release wakes, or the
release wakes nobody. -/
theorem notify_of_stirred (parked : c.waiters[i]? = some .parked) :
    (c.place i .woken).notify = c.notify ∨
      c.notify.waiters[i]? = some .parked := by
  by_cases zero : c.outstanding = 0
  · left
    rw [notify_place_woken]
    apply place_self
    simp [notify, zero, parked, Waiter.wake]
  · right
    simp [notify, zero, parked]

theorem step?_wake_of_parked (parked : c.waiters[i]? = some .parked) :
    c.step? (.wake i) = some (c.place i .woken) := by
  simp only [step?, parked]
  rfl

namespace Locked

inductive Event where
  /-- A thread takes the lock and a unit off. -/
  | subtract
  /-- It wakes the sleepers if that was the last unit, and gives the lock back. -/
  | notify
  /-- Waiter `i` takes the lock and looks. -/
  | check (i : Nat)
  /-- It parks or returns, and gives the lock back. -/
  | leave
  | other (e : Count.Event)
  deriving DecidableEq, Repr

def step? (l : Locked) : Event → Option Locked
  | .subtract =>
      match l.holder with
      | none => some ⟨l.count.subtract, some .releasing⟩
      | some _ => none
  | .notify =>
      match l.holder with
      | some .releasing => some ⟨l.count.notify, none⟩
      | _ => none
  | .check i =>
      match l.holder, l.count.waiters[i]? with
      | none, some w =>
          if w.isAwake then some ⟨l.count, some (.looking i (w.look l.count.isBusy))⟩ else none
      | _, _ => none
  | .leave =>
      match l.holder with
      | some (.looking i w) => some ⟨l.count.place i w, none⟩
      | _ => none
  | .other .acquire =>
      match l.holder with
      | none => some ⟨l.count.acquire, none⟩
      | some _ => none
  -- Neither begins with the lock in hand.
  | .other .enter => some { l with count := l.count.enter }
  | .other (.wake i) => (l.count.step? (.wake i)).map fun c => { l with count := c }
  | .other .release | .other (.look _) => none

def machine : Machine Locked Event :=
  ⟨⟨.zero, none⟩, step?⟩

/-- The count as the holder of the lock leaves it. -/
def settled (l : Locked) : Count :=
  match l.holder with
  | none => l.count
  | some .releasing => l.count.notify
  | some (.looking i w) => l.count.place i w

/-- A waiter that holds the lock has seen the count as it is. -/
def Consistent (l : Locked) : Prop :=
  ∀ i next, l.holder = some (.looking i next) →
    ∃ w, l.count.waiters[i]? = some w ∧ w.isAwake = true ∧ next = w.look l.count.isBusy

variable {l l' : Locked} {e : Event} {i : Nat}

/-! ## Moves -/

inductive Move (l : Locked) : Event → Locked → Prop where
  | subtracts (free : l.holder = none) : Move l .subtract ⟨l.count.subtract, some .releasing⟩
  | notifies (held : l.holder = some .releasing) : Move l .notify ⟨l.count.notify, none⟩
  | checks {i : Nat} {w : Waiter} (free : l.holder = none) (hget : l.count.waiters[i]? = some w)
      (awake : w.isAwake = true) :
      Move l (.check i) ⟨l.count, some (.looking i (w.look l.count.isBusy))⟩
  | leaves {i : Nat} {w : Waiter} (held : l.holder = some (.looking i w)) :
      Move l .leave ⟨l.count.place i w, none⟩
  | acquires (free : l.holder = none) : Move l (.other .acquire) ⟨l.count.acquire, none⟩
  | enters : Move l (.other .enter) { l with count := l.count.enter }
  | stirs {i : Nat} (hget : l.count.waiters[i]? = some .parked) :
      Move l (.other (.wake i)) { l with count := l.count.place i .woken }

/-- An event does nothing but what `Move` says. -/
theorem Move.of_step? (step : l.step? e = some l') : Move l e l' := by
  cases e with
  | subtract =>
      simp only [step?] at step
      split at step <;> cases step
      exact .subtracts ‹_›
  | notify =>
      simp only [step?] at step
      split at step <;> cases step
      exact .notifies ‹_›
  | check i =>
      simp only [step?] at step
      split at step
      · rename_i free hget
        split at step <;> cases step
        exact .checks free hget ‹_›
      · cases step
  | leave =>
      simp only [step?] at step
      split at step <;> cases step
      exact .leaves ‹_›
  | other e =>
      cases e with
      | acquire =>
          simp only [step?] at step
          split at step <;> cases step
          exact .acquires ‹_›
      | enter =>
          cases step
          exact .enters
      | wake i =>
          simp only [step?, Count.step?, Option.map_eq_some_iff] at step
          rcases step with ⟨c, woken, rfl⟩
          split at woken <;> cases woken
          exact .stirs ‹_›
      | release | look => cases step

/-! ## What comes between two steps -/

theorem Consistent.of_move (consistent : l.Consistent) (move : Move l e l') : l'.Consistent := by
  intro j next held
  cases move with
  | subtracts | notifies | leaves | acquires => cases held
  | checks free hget awake =>
      cases held
      exact ⟨_, hget, awake, rfl⟩
  | enters =>
      rcases consistent j next held with ⟨w, hget, awake, seen⟩
      have inside : j < l.count.waiters.length := (List.getElem?_eq_some_iff.1 hget).1
      exact ⟨w, (List.getElem?_append_left inside).trans hget, awake, seen⟩
  | @stirs i parked =>
      rcases consistent j next held with ⟨w, hget, awake, seen⟩
      have other : i ≠ j := by
        -- The waiter that holds the lock does not sleep.
        rintro rfl
        cases Option.some.inj (parked.symm.trans hget)
        cases awake
      exact ⟨w, (List.getElem?_set_ne other).trans hget, awake, seen⟩

/-- What the holder of the lock leaves behind is what it left behind before, or the count took one
of its own steps to it. -/
theorem settled_of_move (consistent : l.Consistent) (move : Move l e l') :
    l'.settled = l.settled ∨ ∃ e', l.settled.step? e' = some l'.settled := by
  rcases l with ⟨c, holder⟩
  cases move with
  | subtracts free =>
      cases free
      exact .inr ⟨.release, rfl⟩
  | notifies held =>
      cases held
      exact .inl rfl
  | @checks i w free hget awake =>
      cases free
      refine .inr ⟨.look i, ?_⟩
      simp only [settled, Count.step?] at hget ⊢
      simp only [hget, awake, if_true]
      rfl
  | leaves held =>
      cases held
      exact .inl rfl
  | acquires free =>
      cases free
      exact .inr ⟨.acquire, rfl⟩
  | enters =>
      -- What the holder will do commutes with the arrival of another thread.
      refine .inr ⟨.enter, congrArg some ?_⟩
      cases holder with
      | none => rfl
      | some h =>
          cases h with
          | releasing => exact (notify_enter c).symm
          | looking i next =>
              rcases consistent i next rfl with ⟨w, hget, -⟩
              exact (place_enter (List.getElem?_eq_some_iff.1 hget).1).symm
  | @stirs i parked =>
      cases holder with
      | none => exact .inr ⟨.wake i, step?_wake_of_parked parked⟩
      | some h =>
          cases h with
          | releasing =>
              rcases notify_of_stirred parked with same | still
              · exact .inl same
              · -- The one that is stirred is not the one that the release will wake.
                refine .inr ⟨.wake i, (step?_wake_of_parked still).trans ?_⟩
                exact congrArg some (notify_place_woken c i).symm
          | looking j next =>
              rcases consistent j next rfl with ⟨w, hget, awake, -⟩
              have other : j ≠ i := by
                rintro rfl
                cases Option.some.inj (parked.symm.trans hget)
                cases awake
              have still : (c.place j next).waiters[i]? = some .parked :=
                (List.getElem?_set_ne other).trans parked
              refine .inr ⟨.wake i, (step?_wake_of_parked still).trans ?_⟩
              exact congrArg some (place_comm c other)

/-! ## Runs -/

/-- In every reachable state the holder of the lock has seen the count as it is, and what it will
leave behind is reached by taking its steps at once. -/
theorem reachable_settled (reachable : machine.Reachable l) :
    l.Consistent ∧ Count.machine.Reachable l.settled := by
  rcases Machine.reaches_iff_run?.1 reachable with ⟨es, run⟩
  refine Machine.run?_induction (motive := fun _ l =>
    l.Consistent ∧ Count.machine.Reachable l.settled) ?_ ?_ run
  · have free : machine.start.Consistent := by
      intro i next held
      cases held
    exact ⟨free, .here _⟩
  · intro _ l l' e _ last ih
    rcases ih with ⟨consistent, path⟩
    have move := Move.of_step? last
    refine ⟨consistent.of_move move, ?_⟩
    rcases settled_of_move consistent move with same | ⟨e', step⟩
    · rw [same]
      exact path
    · exact .step path step

/-- When the lock is free and the count is zero, nobody is parked. -/
theorem not_parked_of_free (reachable : machine.Reachable l) (free : l.holder = none)
    (zero : l.count.outstanding = 0) : l.count.waiters[i]? ≠ some .parked := by
  have path := (reachable_settled reachable).2
  simp only [settled, free] at path
  rcases Machine.reaches_iff_run?.1 path with ⟨es, run⟩
  exact not_parked_of_run run zero

/-- A waiter that is about to return has the lock in its hands, and the count is zero. -/
theorem zero_of_returning (reachable : machine.Reachable l)
    (held : l.holder = some (.looking i .returned)) : l.count.outstanding = 0 := by
  rcases (reachable_settled reachable).1 i .returned held with ⟨w, -, awake, seen⟩
  cases busy : l.count.isBusy with
  | false => simpa [isBusy] using busy
  | true =>
      -- It would have parked.
      rw [busy] at seen
      cases w <;> simp [Waiter.look, Waiter.isAwake] at seen awake

end Locked

/-! ## No wake-up is lost -/

/-- No wake-up is lost.  First, while the count is zero, no waiter is parked, and each that has not
returned may look and return.  Second, a waiter has returned if and only if it has looked while the
count was zero.  Third, a waiter that was woken, while the count has risen again, looks and parks
again; it sleeps until something stirs it or the count falls to zero, and the release with which
that happens next wakes it.  Fourth, all this holds of a count that is used step by step, as its
holder leaves it; nobody is parked there when the lock is free and the count is zero, and the count
is zero as long as a waiter is about to return, with the lock in its hands. -/
theorem no_wakeup_is_lost {es : List Event} (run : machine.run? .zero es = some c) :
    (c.outstanding = 0 → ∀ i w, c.waiters[i]? = some w →
      w ≠ .parked ∧ (w ≠ .returned → ∃ c', c.step? (.look i) = some c' ∧
        c'.waiters[i]? = some .returned)) ∧
    (∀ i, c.waiters[i]? = some .returned ↔
      machine.Happens (fun t e => e = .look i ∧ t.outstanding = 0) .zero es) ∧
    (∀ i, c.waiters[i]? = some .woken → c.outstanding ≠ 0 →
      ∃ c', c.step? (.look i) = some c' ∧ c'.waiters[i]? = some .parked ∧
        c'.outstanding = c.outstanding ∧
        ∀ fs d, machine.run? c' fs = some d → c'.StaysBusy fs → d.outstanding = 1 →
          (.wake i ∉ fs → d.waiters[i]? = some .parked) ∧
            ∃ d', d.step? .release = some d' ∧ d'.outstanding = 0 ∧
              d'.waiters[i]? = some .woken) ∧
    ∀ l : Locked, Locked.machine.Reachable l →
      machine.Reachable l.settled ∧
      (l.holder = none → l.count.outstanding = 0 → ∀ i : Nat, l.count.waiters[i]? ≠ some .parked) ∧
      ∀ i : Nat, l.holder = some (.looking i .returned) → l.count.outstanding = 0 := by
  refine ⟨fun zero i w => returns_of_zero run zero, fun i => returned_iff_of_run run,
    fun i => parks_again, ?_⟩
  intro l reachable
  exact ⟨(Locked.reachable_settled reachable).2,
    fun free zero i => Locked.not_parked_of_free reachable free zero,
    fun i => Locked.zero_of_returning reachable⟩

/-- Two threads wait; the count falls to zero and rises again before the first of them, which was
woken, looks again. -/
def risenAgain : List Event :=
  [.enter, .acquire, .look 0, .release, .acquire, .enter]

/-- The second of them parks, is woken without a cause and parks again, while the count goes up by a
unit and down again. -/
def untilNextFall : List Event :=
  [.acquire, .look 1, .wake 1, .release, .look 1]

/-- A thread is woken without a cause between the two steps of a release, and looks behind them. -/
def stirredInRelease : List Locked.Event :=
  [.other .acquire, .other .enter, .check 0, .leave, .subtract, .other (.wake 0), .notify, .check 0]

/-- The thread that was woken too late parks again, and is woken by the next fall to zero; and the
one that was stirred within a release is about to return when the count is zero. -/
theorem woken_twice_of_risenAgain :
    (∃ c d d' : Count, machine.run? .zero risenAgain = some c ∧
      c.waiters[0]? = some .woken ∧ c.outstanding = 1 ∧
      machine.run? c (.look 0 :: untilNextFall) = some d ∧ d.waiters[0]? = some .parked ∧
      d.step? .release = some d' ∧ d'.waiters[0]? = some .woken) ∧
    ∃ l, Locked.machine.run? Locked.machine.start stirredInRelease = some l ∧
      l.holder = some (.looking 0 .returned) ∧ l.count.outstanding = 0 := by
  have run : machine.run? .zero risenAgain = some ⟨1, [.woken, .arriving]⟩ := by decide
  have rest : machine.run? ⟨1, [.parked, .arriving]⟩ untilNextFall =
      some ⟨1, [.parked, .parked]⟩ := by decide
  have busy : StaysBusy ⟨1, [.parked, .arriving]⟩ untilNextFall := by
    simp [StaysBusy, untilNextFall, Machine.happens_cons, machine, step?, acquire, release, isBusy,
      Waiter.isAwake, Waiter.look]
  have stirred : Locked.machine.run? Locked.machine.start stirredInRelease =
      some ⟨⟨0, [.woken]⟩, some (.looking 0 .returned)⟩ := by decide
  rcases no_wakeup_is_lost run with ⟨-, -, parksAgain, stepByStep⟩
  rcases parksAgain 0 rfl (by decide) with ⟨c', look, -, -, next⟩
  obtain rfl : Count.mk 1 [.parked, .arriving] = c' := Option.some.inj look
  rcases next untilNextFall _ rest busy rfl with ⟨sleeps, d', release, -, woken⟩
  rcases stepByStep _ (Machine.reaches_iff_run?.2 ⟨_, stirred⟩) with ⟨-, -, zero⟩
  exact ⟨⟨_, _, d', run, rfl, rfl, rest, sleeps (by decide), release, woken⟩,
    _, stirred, rfl, zero 0 rfl⟩

end Count
end LineExchange
