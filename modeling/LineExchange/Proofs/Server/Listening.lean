import LineExchange.Server.Listener

/-!
# Listening — what a listener shows, and where its loop stands

The phase, the count of accepts and the socket of a listener are written in different steps, by
starters, stoppers and the loop.  This file defines:

* `Listener.Move` — what an event may do, one constructor for each kind of step;
* `Listener.Loop.holdsSocket`, `Listener.Loop.isRunning`, `Listener.Loop.hasRun` — what is told by
  where the loop stands;
* `Listener.Shows` — how the shared state agrees with it.

The invariant `Shows` is kept by every move (`Shows.of_move`), and a loop has run exactly when it
took its first step (`Move.hasRun_iff`).
-/

namespace LineExchange
namespace Listener

/-! ## Moves -/

inductive Move (l : Listener) : Event → Listener → Prop where
  | started {e : Endpoint} (created : l.phase = .created) :
      Move l (.start (.ok e))
        { l with phase := .listening, localAddress := some e, loop := .opened, socketOpen := true }
  | refused {r : Except IoError Endpoint} {e : StartError} (begun : l.begin r = .error e) :
      Move l (.start r) l
  | armed (opened : l.loop = .opened) :
      Move l .arm
        { l with phase := if l.phase = .listening then .accepting else l.phase, loop := .armed }
  | brought (armed : l.loop = .armed) : Move l (.spawn true) { l with loop := .queued }
  /-- The workers are gone, and the loop with its socket is lost. -/
  | turnedAway (armed : l.loop = .armed) :
      Move l (.spawn false) { l with socketOpen := false, loop := .lost }
  | stopped : Move l .stop l.stop
  | polled (queued : l.loop = .queued) : Move l .step { l with loop := .ready }
  | accepts (ready : l.loop = .ready) :
      Move l .step { l with pending := l.pending + 1, loop := .accepting }
  | completed {ok : Bool} (accepting : l.loop = .accepting) :
      Move l (.complete ok) { l with pending := l.pending - 1, loop := .completed ok }
  | accounted {ok : Bool} (completed : l.loop = .completed ok) :
      Move l .step { l with loop := .checking }
  | goesOn (checking : l.loop = .checking) (unasked : l.stopped = false) :
      Move l .step { l with loop := .ready }
  | leaves (checking : l.loop = .checking) (asked : l.stopped = true) :
      Move l .step { l with loop := .leaving }
  | closes (leaving : l.loop = .leaving) :
      Move l .step { l with socketOpen := false, loop := .clearing }
  | clears (clearing : l.loop = .clearing) : Move l .step { l with pending := 0, loop := .marking }
  | marks (marking : l.loop = .marking) :
      Move l .step { l with phase := .closed, loop := .finished }
  /-- The loop never ran, so nobody is left to clear and to mark. -/
  | lost (queued : l.loop = .queued) : Move l .drop { l with socketOpen := false, loop := .lost }
  | droppedAccepting (accepting : l.loop = .accepting) :
      Move l .drop { l with socketOpen := false, loop := .clearing }

variable {l l' : Listener} {e : Event}

theorem Move.of_loopStep (h : l.loopStep = some l') : Move l .step l' := by
  unfold loopStep at h
  split at h <;> rename_i loop <;> cases h
  · exact .polled loop
  · exact .accepts loop
  · exact .accounted loop
  · by_cases asked : l.stopped = true
    · rw [if_pos asked]
      exact .leaves loop asked
    · rw [if_neg asked]
      exact .goesOn loop (Bool.eq_false_iff.2 asked)
  · exact .closes loop
  · exact .clears loop
  · exact .marks loop

theorem Move.of_dropLoop (h : l.dropLoop = some l') : Move l .drop l' := by
  unfold dropLoop at h
  split at h <;> rename_i loop <;> cases h
  · exact .lost loop
  · exact .droppedAccepting loop

/-- An event does nothing but what `Move` says. -/
theorem Move.of_step? (h : l.step? e = some l') : Move l e l' := by
  cases e with
  | start r =>
      simp only [step?] at h
      split at h <;> rename_i begun <;> cases h
      · unfold Listener.begin at begun
        split at begun
        · rename_i created
          split at begun <;> cases begun
          exact .started created
        · cases begun
      · exact .refused begun
  | arm =>
      simp only [step?] at h
      split at h <;> cases h
      rename_i opened
      exact .armed opened
  | spawn up =>
      simp only [step?] at h
      split at h
      · rename_i armed
        cases up with
        | false =>
            cases h
            exact .turnedAway armed
        | true =>
            cases h
            exact .brought armed
      · cases h
  | stop =>
      cases h
      exact .stopped
  | step => exact .of_loopStep h
  | complete ok =>
      simp only [step?] at h
      split at h <;> cases h
      rename_i accepting
      exact .completed accepting
  | drop => exact .of_dropLoop h

/-! ## Where the loop stands -/

def Loop.holdsSocket : Loop → Bool
  | .opened | .armed | .queued | .ready | .accepting | .completed _ | .checking | .leaving => true
  | .absent | .clearing | .marking | .finished | .lost => false

/-- Whether the loop is with the workers and not over. -/
def Loop.isRunning : Loop → Bool
  | .queued | .ready | .accepting | .completed _ | .checking | .leaving | .clearing | .marking =>
      true
  | .absent | .opened | .armed | .finished | .lost => false

def Loop.hasRun : Loop → Bool
  | .ready | .accepting | .completed _ | .checking | .leaving | .clearing | .marking | .finished =>
      true
  | .absent | .opened | .armed | .queued | .lost => false

def Loop.isSpawned : Loop → Bool
  | .absent | .opened | .armed => false
  | _ => true

structure Shows (l : Listener) : Prop where
  pending : l.loop ≠ .clearing → l.pending = if l.loop = .accepting then 1 else 0
  atMostOne : l.pending ≤ 1
  socket : l.socketOpen = l.loop.holdsSocket
  created : l.phase = .created → l.loop = .absent
  closed : l.loop ≠ .absent → (l.phase = .closed ↔ l.loop = .finished)

theorem shows_fresh : Shows fresh where
  pending _ := rfl
  atMostOne := Nat.zero_le 1
  socket := rfl
  created _ := rfl
  closed h := absurd rfl h

/-- A listener that is asked to stop is closed if it was not started. -/
theorem Shows.stop (h : Shows l) : Shows l.stop where
  pending := h.pending
  atMostOne := h.atMostOne
  socket := h.socket
  created late := by
    simp only [Listener.stop] at late
    split at late <;> cases late
  closed there := by
    have before := h.closed there
    have begun : l.phase ≠ .created := fun late => there (h.created late)
    cases phase : l.phase <;> simp_all [Listener.stop]

/-- Every move keeps the shared state in agreement with the loop. -/
theorem Shows.of_move (h : Shows l) (move : Move l e l') : Shows l' := by
  rcases h with ⟨pending, atMostOne, socket, created, closed⟩
  cases move with
  | refused => exact ⟨pending, atMostOne, socket, created, closed⟩
  | stopped => exact Shows.stop ⟨pending, atMostOne, socket, created, closed⟩
  | started hfresh =>
      have absent := created hfresh
      constructor <;> simp_all [Loop.holdsSocket]
  | armed opened =>
      -- A listener that was asked to stop before it was armed keeps its phase.
      constructor
      case created | closed => cases phase : l.phase <;> simp_all
      all_goals simp_all [Loop.holdsSocket]
  | _ =>
      -- The others lead from one place of the loop to another, and write what belongs to it.
      constructor <;> simp_all [Loop.holdsSocket]

/-- The first step of a loop is the one that it takes where it was brought. -/
def Event.isFirstStep (l : Listener) : Event → Bool
  | .step => l.loop == .queued
  | _ => false

/-- A loop has run when it took its first step, and from then on. -/
theorem Move.hasRun_iff (move : Move l e l') (shows : Shows l) :
    l'.loop.hasRun = true ↔ l.loop.hasRun = true ∨ e.isFirstStep l = true := by
  cases move with
  | started hfresh => simp [shows.created hfresh, Loop.hasRun, Event.isFirstStep]
  | refused => simp [Event.isFirstStep]
  | armed opened => simp [opened, Loop.hasRun, Event.isFirstStep]
  | brought armed => simp [armed, Loop.hasRun, Event.isFirstStep]
  | turnedAway armed => simp [armed, Loop.hasRun, Event.isFirstStep]
  | stopped => simp [Listener.stop, Event.isFirstStep]
  | polled queued => simp [queued, Loop.hasRun, Event.isFirstStep]
  | accepts ready => simp [ready, Loop.hasRun]
  | completed accepting => simp [accepting, Loop.hasRun]
  | accounted completed => simp [completed, Loop.hasRun]
  | goesOn checking => simp [checking, Loop.hasRun]
  | leaves checking => simp [checking, Loop.hasRun]
  | closes leaving => simp [leaving, Loop.hasRun]
  | clears clearing => simp [clearing, Loop.hasRun]
  | marks marking => simp [marking, Loop.hasRun]
  | lost queued => simp [queued, Loop.hasRun, Event.isFirstStep]
  | droppedAccepting accepting => simp [accepting, Loop.hasRun]

/-- Only workers that are there take up a loop. -/
theorem Move.isRunning (move : Move l e l') (running : l'.loop.isRunning = true) :
    l.loop.isRunning = true ∨ e = .spawn true := by
  cases move with
  | started => cases running
  | refused => exact .inl running
  | armed => cases running
  | brought => exact .inr rfl
  | turnedAway => cases running
  | stopped => exact .inl running
  | polled queued => exact .inl (by rw [queued]; rfl)
  | accepts ready => exact .inl (by rw [ready]; rfl)
  | completed accepting => exact .inl (by rw [accepting]; rfl)
  | accounted completed => exact .inl (by rw [completed]; rfl)
  | goesOn checking => exact .inl (by rw [checking]; rfl)
  | leaves checking => exact .inl (by rw [checking]; rfl)
  | closes leaving => exact .inl (by rw [leaving]; rfl)
  | clears clearing => exact .inl (by rw [clearing]; rfl)
  | marks => cases running
  | lost => cases running
  | droppedAccepting accepting => exact .inl (by rw [accepting]; rfl)

end Listener
end LineExchange
