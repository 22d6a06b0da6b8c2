import LineExchange.Proofs.Server.Lifecycle

/-!
# Stopping — a loop that is asked to stop completes at most one more accept

The loop of a listener looks at the flag only behind an accept that was completed, so a stopper may
find it anywhere between two looks.  This file defines:

* `Listener.Event.completes` and `Listener.issues` — an accept is completed, or issued;
* `Listener.Loop.toComplete` — how many accepts a loop that is asked to stop may still complete;
* `Listener.Ledger` — the accepts that were issued against those that were completed.

What a listener completes that was asked to stop is taken off what it may still complete
(`Move.add_le_of_asked`), so no run completes more, also when a stopper takes two writes for it
(`Contended.add_countP_le_of_asked`).  Every move keeps the ledger, by which no accept is issued
before the last one is completed (`Ledger.of_move`).
-/

namespace LineExchange
namespace Listener

variable {l l' : Listener} {e : Event}

/-! ## What is left to do for a loop that is asked to stop -/

def Event.completes : Event → Bool
  | .complete _ => true
  | _ => false

def Loop.toComplete : Loop → Nat
  | .absent | .opened | .armed | .queued | .ready | .accepting => 1
  | .completed _ | .checking | .leaving | .clearing | .marking | .finished | .lost => 0

theorem Loop.toComplete_le_one (p : Loop) : p.toComplete ≤ 1 := by
  cases p <;> simp [toComplete]

/-- What a listener completes that was asked to stop is taken off what it may still complete. -/
theorem Move.add_le_of_asked (move : Move l e l') (shows : l.Shows) (asked : l.stopped = true) :
    l'.loop.toComplete + e.completes.toNat ≤ l.loop.toComplete := by
  cases move with
  | started created => simp [shows.created created, Loop.toComplete, Event.completes]
  | refused => exact Nat.le_refl _
  | stopped => exact Nat.le_refl _
  | goesOn checking unasked => simp [asked] at unasked
  | armed hloop | brought hloop | turnedAway hloop | polled hloop | accepts hloop | completed hloop
  | accounted hloop | leaves hloop | closes hloop | clears hloop | marks hloop | lost hloop
  | droppedAccepting hloop =>
      simp [hloop, Loop.toComplete, Event.completes]

/-! ## Accepts that were issued, and accepts that were completed -/

def issues (l : Listener) : Event → Bool
  | .step => decide (l.loop = .ready)
  | _ => false

def Loop.isSettled : Loop → Bool
  | .absent | .opened | .armed | .queued | .ready | .completed _ | .checking => true
  | .accepting | .leaving | .clearing | .marking | .finished | .lost => false

/-- Every accept that was issued was completed, but for one that is under way, or that was when the
loop was dropped. -/
structure Ledger (issued completed : Nat) (l : Listener) : Prop where
  settled : l.loop.isSettled = true → issued = completed
  accepting : l.loop = .accepting → issued = completed + 1
  le : completed ≤ issued
  le_succ : issued ≤ completed + 1

variable {issued completed : Nat}

theorem ledger_fresh : Ledger 0 0 fresh where
  settled _ := rfl
  accepting hloop := by cases hloop
  le := Nat.le_refl 0
  le_succ := Nat.zero_le 1

/-- What issues and completes nothing keeps the ledger, if it leads to no place that says more. -/
theorem Ledger.keep (h : Ledger issued completed l)
    (settled : l'.loop.isSettled = true → l.loop.isSettled = true)
    (accepting : l'.loop = .accepting → l.loop = .accepting) : Ledger issued completed l' :=
  ⟨fun hloop => h.settled (settled hloop), fun hloop => h.accepting (accepting hloop), h.le,
    h.le_succ⟩

/-- Every move keeps the ledger. -/
theorem Ledger.of_move (h : Ledger issued completed l) (shows : l.Shows) (move : Move l e l') :
    Ledger (issued + (l.issues e).toNat) (completed + e.completes.toNat) l' := by
  cases move with
  | started created =>
      have absent := shows.created created
      exact h.keep (by simp [absent, Loop.isSettled]) (by simp)
  | refused => exact h
  | stopped => exact h.keep id id
  | accepts ready =>
      -- Nothing was under way, so the accept that begins is the only one.
      have same : issued = completed := h.settled (by rw [ready]; rfl)
      have one : l.issues .step = true := by simp [issues, ready]
      rw [one, same]
      exact ⟨by simp [Loop.isSettled], fun _ => rfl, Nat.le_succ _, Nat.le_refl _⟩
  | completed accepting =>
      have same : issued = completed + 1 := h.accepting accepting
      rw [same]
      exact ⟨fun _ => rfl, by simp, Nat.le_refl _, Nat.le_succ _⟩
  | polled hloop | accounted hloop | goesOn hloop | leaves hloop | closes hloop | clears hloop
  | marks hloop =>
      have hnone : l.issues .step = false := by simp [issues, hloop]
      rw [hnone]
      exact h.keep (by simp [hloop, Loop.isSettled]) (by simp)
  | armed hloop | brought hloop | turnedAway hloop | lost hloop | droppedAccepting hloop =>
      exact h.keep (by simp [hloop, Loop.isSettled]) (by simp)

/-- Where an accept was completed is left by the next step of the loop, which accounts for it, and by
nothing else. -/
theorem Move.completed_iff (move : Move l e l') (shows : l.Shows) (ok : Bool) :
    l'.loop = .completed ok ↔ e = .complete ok ∨ l.loop = .completed ok ∧ e ≠ .step := by
  cases move with
  | started created => simp [shows.created created]
  | refused => simp
  | stopped => simp [stop]
  | armed hloop | brought hloop | turnedAway hloop | polled hloop | accepts hloop
  | completed hloop | accounted hloop | goesOn hloop | leaves hloop | closes hloop | clears hloop
  | marks hloop | lost hloop
  | droppedAccepting hloop =>
      simp [hloop]

/-! ## A loop that nobody asked to stop -/

def Loop.isLeaving : Loop → Bool
  | .leaving | .clearing | .marking | .finished | .lost => true
  | .absent | .opened | .armed | .queued | .ready | .accepting | .completed _ | .checking => false

/-- A loop ends only when it was asked to stop, or when there are no workers. -/
theorem Move.isLeaving (move : Move l e l') (unasked : l'.stopped = false)
    (leaving : l'.loop.isLeaving = true) :
    l.loop.isLeaving = true ∨ e = .drop ∨ e = .spawn false := by
  cases move with
  | refused => exact .inl leaving
  | stopped => cases unasked
  | leaves checking asked => simp [asked] at unasked
  | turnedAway => exact .inr (.inr rfl)
  | lost | droppedAccepting => exact .inr (.inl rfl)
  | closes hloop | clears hloop | marks hloop => exact .inl (by rw [hloop]; rfl)
  | _ => cases leaving

/-! ## The socket is closed first -/

/-- Before the phase says that the listener is closed, the socket is. -/
theorem Shows.socket_of_move (shows : l.Shows) (move : Move l e l') (closed : l'.phase = .closed) :
    l.socketOpen = false := by
  have early (there : l.loop = .finished ∨ l.loop = .marking ∨ l.loop = .absent) :
      l.socketOpen = false := by
    rw [shows.socket]
    rcases there with loop | loop | loop <;> rw [loop] <;> rfl
  have finished (before : l.phase = .closed) : l.socketOpen = false := by
    by_cases absent : l.loop = .absent
    · exact early (.inr (.inr absent))
    · exact early (.inl ((shows.closed absent).1 before))
  cases move with
  | started => cases closed
  | armed opened =>
      refine finished ?_
      by_cases listening : l.phase = .listening <;> simp_all
  | stopped =>
      cases phase : l.phase with
      | created => exact early (.inr (.inr (shows.created phase)))
      | closed => exact finished phase
      | listening | accepting | stopping => simp [Listener.stop, phase] at closed
  | marks marking => exact early (.inr (.inl marking))
  | _ => exact finished closed

end Listener

/-! ## A stopper that writes twice -/

namespace Contended

variable {c d : Contended} {fs : List Event}

def Event.completes : Event → Bool
  | .other e => e.completes
  | _ => false

/-- Once a stopper has raised the flag, whether it has written the phase or not, at most as many
accepts are completed as the place of the loop allows. -/
theorem add_countP_le_of_asked (shows : c.listener.Shows) (asked : c.listener.stopped = true)
    (run : machine.run? c fs = some d) :
    d.listener.loop.toComplete + fs.countP Event.completes ≤ c.listener.loop.toComplete := by
  refine (Machine.add_countP_le_of_run (fun c => c.listener.loop.toComplete) Event.completes
    (fun c => c.listener.Shows ∧ c.listener.stopped = true) ?_ ?_ ⟨shows, asked⟩ run).2
  · rintro c c' e ⟨shows, asked⟩ step
    exact ⟨shows_of_step? shows step, (passes_of_step? step).2 asked⟩
  · rintro c c' e ⟨shows, asked⟩ step
    cases Move.of_step? step with
    | raised => exact Nat.le_refl _
    | turned => exact Nat.le_refl _
    | moved noStop free heard =>
        exact Listener.Move.add_le_of_asked (.of_step? heard) shows asked

end Contended
end LineExchange
