import LineExchange.Proofs.History
import LineExchange.Proofs.Server.Listening

/-!
# Contention — a listener that is stopped in two writes

A stopper writes twice under the lock of the phase: first the flag, and then the phase.  The loop
reads the flag without the lock, so it may see that it is to stop before the phase says so.  This
file defines:

* `Contended` — a listener, and whether a stopper stands between its two writes;
* `Contended.machine` — everything that can happen when stopping is two steps;
* `Contended.settled` — the listener as the stopper leaves it.

What happens between the two writes could as well have happened behind them (`step?_stop`), so
stopping in two writes leads nowhere where stopping at once does not (`reachable_settled`).
-/

namespace LineExchange

/-- A listener, and whether a stopper holds its lock between the flag and the phase. -/
structure Contended where
  listener : Listener
  stopping : Bool
  deriving DecidableEq, Repr

namespace Contended

inductive Event where
  /-- A stopper takes the lock and raises the flag. -/
  | raise
  /-- The stopper writes the phase and gives the lock back. -/
  | turn
  | other (e : Listener.Event)

def needsLock (l : Listener) : Listener.Event → Bool
  | .start _ | .arm | .stop => true
  -- The loop takes the lock for its last write only.
  | .step => l.loop == .marking
  | .spawn _ | .complete _ | .drop => false

def step? (c : Contended) : Event → Option Contended
  | .raise =>
      if c.stopping then none
      else some ⟨{ c.listener with stopped := c.listener.stop.stopped }, true⟩
  | .turn =>
      if c.stopping then some ⟨{ c.listener with phase := c.listener.stop.phase }, false⟩ else none
  | .other .stop => none
  | .other e =>
      -- Whoever needs the lock waits until the stopper has given it back.
      if c.stopping && needsLock c.listener e then none
      else (c.listener.step? e).map fun l => { c with listener := l }

def fresh : Contended :=
  ⟨.fresh, false⟩

/-- All orders in which a listener is used when stopping is two steps. -/
def machine : Machine Contended Event :=
  ⟨fresh, step?⟩

/-! ## Moves -/

inductive Move (c : Contended) : Event → Contended → Prop where
  | raised (free : c.stopping = false) : Move c .raise ⟨{ c.listener with stopped := true }, true⟩
  | turned (held : c.stopping = true) :
      Move c .turn ⟨{ c.listener with phase := c.listener.stop.phase }, false⟩
  | moved {e : Listener.Event} {l : Listener} (noStop : e ≠ .stop)
      (free : c.stopping = true → needsLock c.listener e = false)
      (heard : c.listener.step? e = some l) : Move c (.other e) { c with listener := l }

variable {c c' : Contended} {l l' : Listener}

theorem Move.of_other {e : Listener.Event} (noStop : e ≠ .stop)
    (h : (if c.stopping && needsLock c.listener e then none
      else (c.listener.step? e).map fun l => { c with listener := l }) = some c') :
    Move c (.other e) c' := by
  split at h
  · cases h
  · rename_i free
    rcases Option.map_eq_some_iff.1 h with ⟨l, heard, rfl⟩
    refine .moved noStop ?_ heard
    intro held
    simpa [held] using free

/-- An event does nothing but what `Move` says. -/
theorem Move.of_step? {e : Event} (h : c.step? e = some c') : Move c e c' := by
  cases e with
  | raise =>
      simp only [step?] at h
      split at h <;> cases h
      rename_i free
      exact .raised (Bool.eq_false_iff.2 free)
  | turn =>
      simp only [step?] at h
      split at h <;> cases h
      rename_i held
      exact .turned held
  | other e =>
      cases e with
      | stop => cases h
      | start r => exact .of_other (by simp) h
      | arm => exact .of_other (by simp) h
      | spawn up => exact .of_other (by simp) h
      | step => exact .of_other (by simp) h
      | complete ok => exact .of_other (by simp) h
      | drop => exact .of_other (by simp) h

/-! ## Stopping at once -/

/-- The listener as the stopper leaves it, if there is one. -/
def settled (c : Contended) : Listener :=
  if c.stopping then c.listener.stop else c.listener

/-- A listener that sees its flag raised does without the lock what it would do behind the stopper's
second write. -/
theorem step?_stop {e : Listener.Event} (asked : l.stopped = true) (free : needsLock l e = false)
    (heard : l.step? e = some l') : l.stop.step? e = some l'.stop := by
  cases Listener.Move.of_step? heard with
  | started => cases free
  | refused => cases free
  | armed => cases free
  | stopped => cases free
  | goesOn checking unasked => simp [asked] at unasked
  | marks marking => simp [needsLock, marking] at free
  | brought armed => simp [Listener.step?, Listener.stop, armed]
  | turnedAway armed => simp [Listener.step?, Listener.stop, armed]
  | polled queued => simp [Listener.step?, Listener.loopStep, Listener.stop, queued]
  | accepts ready => simp [Listener.step?, Listener.loopStep, Listener.stop, ready]
  | completed accepting => simp [Listener.step?, Listener.stop, accepting]
  | accounted completed => simp [Listener.step?, Listener.loopStep, Listener.stop, completed]
  | leaves checking => simp [Listener.step?, Listener.loopStep, Listener.stop, checking]
  | closes leaving => simp [Listener.step?, Listener.loopStep, Listener.stop, leaving]
  | clears clearing => simp [Listener.step?, Listener.loopStep, Listener.stop, clearing]
  | lost queued => simp [Listener.step?, Listener.dropLoop, Listener.stop, queued]
  | droppedAccepting accepting =>
      simp [Listener.step?, Listener.dropLoop, Listener.stop, accepting]

/-- The flag is never cleared. -/
theorem stopped_of_step? {e : Listener.Event} (heard : l.step? e = some l')
    (asked : l.stopped = true) : l'.stopped = true := by
  cases Listener.Move.of_step? heard with
  | stopped => rfl
  | _ => exact asked

/-- In every reachable state a stopper that holds the lock has raised the flag, and what it will
leave behind is reached by stopping at once. -/
theorem reachable_settled (reachable : machine.Reachable c) :
    (c.stopping = true → c.listener.stopped = true) ∧ Listener.machine.Reachable c.settled := by
  rcases Machine.reaches_iff_run?.1 reachable with ⟨es, run⟩
  refine Machine.run?_induction (motive := fun _ c =>
    (c.stopping = true → c.listener.stopped = true) ∧ Listener.machine.Reachable c.settled)
    ?_ ?_ run
  · have unheld : machine.start.stopping = true → machine.start.listener.stopped = true := by
      intro held
      cases held
    exact ⟨unheld, .here _⟩
  · intro _ c c' e _ last ih
    rcases ih with ⟨raised, path⟩
    cases Move.of_step? last with
    | raised free =>
        have here : c.settled = c.listener := by simp [settled, free]
        rw [here] at path
        have stop : Listener.machine.step? c.listener .stop = some c.listener.stop := rfl
        exact ⟨fun _ => rfl, .step path stop⟩
    | turned held =>
        -- In what the stopper will leave behind, the phase was written already.
        have asked := raised held
        have same : settled ⟨{ c.listener with phase := c.listener.stop.phase }, false⟩ =
            c.settled := by
          simp [settled, held, Listener.stop, asked]
        rw [same]
        exact ⟨by simp, path⟩
    | @moved e l noStop free heard =>
        have still : c.stopping = true → l.stopped = true := by
          intro held
          exact stopped_of_step? heard (raised held)
        refine ⟨still, ?_⟩
        cases held : c.stopping with
        | false =>
            have here : c.settled = c.listener := by simp [settled, held]
            have there : settled ⟨l, false⟩ = l := rfl
            rw [here] at path
            rw [there]
            have next : Listener.machine.step? c.listener e = some l := heard
            exact .step path next
        | true =>
            have here : c.settled = c.listener.stop := by simp [settled, held]
            have there : settled ⟨l, true⟩ = l.stop := rfl
            rw [here] at path
            rw [there]
            have next : Listener.machine.step? c.listener.stop e = some l.stop :=
              step?_stop (raised held) (free held) heard
            exact .step path next

end Contended
end LineExchange
