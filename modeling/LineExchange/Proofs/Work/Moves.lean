import LineExchange.Work.Crew

/-!
# Crew moves — what the events of a crew do

This file says once, for each event of a crew, everything that it may do and when it can come.
It defines:

* `Crew.Move` — what an event may do, one constructor for each kind of step;
* `Crew.Event.Admitted` — that the event brings work only from somebody who answers for it.

`Move.of_step?` proves that an event does nothing else, and `admitted_of_orderlyStep?` that a step
of the orderly machine is a step whose event is admitted.
-/

namespace LineExchange
namespace Crew

inductive Move (c : Crew) : Event → Crew → Prop where
  | guardTaken {o : Origin} :
      Move c (.takeGuard o) { c with count := c.count.acquire, guards := c.guards ++ [true] }
  | guardDropped {g : Nat} (held : c.guards[g]? = some true) :
      Move c (.dropGuard g) { c with count := c.count.release, guards := c.guards.set g false }
  | counted {o : Origin} :
      Move c (.count o) { c with count := c.count.acquire, jobs := c.jobs ++ [.counted] }
  | enqueued {j : Nat} (hget : c.jobs[j]? = some .counted) (up : c.isUp = true) :
      Move c (.enqueue j) { c with jobs := c.jobs.set j .live }
  /-- The job comes to a loop that is going down. -/
  | turnedAway {j : Nat} (hget : c.jobs[j]? = some .counted) (down : c.isUp = false) :
      Move c (.enqueue j) (c.uncount j .dropped)
  | worked {j : Nat} (hget : c.jobs[j]? = some .live) (here : c.closing ≠ .closed) :
      Move c (.work j) c
  | finished {j : Nat} {failed : Bool} (hget : c.jobs[j]? = some .live)
      (here : c.closing ≠ .closed) :
      Move c (.finish j failed) { c with jobs := c.jobs.set j (.leaving failed) }
  | left {j : Nat} {failed : Bool} (hget : c.jobs[j]? = some (.leaving failed)) :
      Move c (.leave j) (c.uncount j (if failed then .failed else .done))
  | shut (staffed : c.closing = .staffed) :
      Move c .shutdown
        { c.giveUp with
          count := c.giveUp.count.enter
          closing := .draining c.giveUp.count.waiters.length }
  | stopped (staffed : c.closing = .staffed) : Move c .stop { c.giveUp with closing := .joining }
  | entered : Move c .enter { c with count := c.count.enter }
  | looked {i : Nat} {n : Count} (look : c.count.step? (.look i) = some n) :
      Move c (.look i) { c with count := n }
  | woken {i : Nat} {n : Count} (wake : c.count.step? (.wake i) = some n) :
      Move c (.wake i) { c with count := n }
  /-- The closing thread saw no work. -/
  | joins {i : Nat} (draining : c.closing = .draining i)
      (returned : c.count.waiters[i]? = some .returned) :
      Move c .join { c with closing := .joining }
  | discarded {j : Nat} (hget : c.jobs[j]? = some .live) (joining : c.closing = .joining) :
      Move c (.discard j) (c.uncount j .dropped)
  /-- The last thread is gone, so no job is being carried out. -/
  | gone (joining : c.closing = .joining)
      (still : ∀ job ∈ c.jobs, job ≠ .live ∧ ∀ failed, job ≠ .leaving failed) :
      Move c .joined { c with closing := .closed }

/-- An event does nothing but what `Move` says. -/
theorem Move.of_step? {c c' : Crew} {e : Event} (h : c.step? e = some c') : Move c e c' := by
  cases e with
  | takeGuard o =>
      cases h
      exact .guardTaken
  | dropGuard g =>
      simp only [step?] at h
      split at h
      · rename_i held
        cases h
        exact .guardDropped held
      · cases h
  | count o =>
      cases h
      exact .counted
  | enqueue j =>
      simp only [step?] at h
      split at h
      · rename_i hget
        split at h
        · rename_i up
          cases h
          exact .enqueued hget up
        · rename_i down
          -- Whoever comes to a loop that is down is turned away, and gives back its unit at once.
          cases h
          exact .turnedAway hget (Bool.eq_false_iff.2 down)
      · cases h
  | work j =>
      simp only [step?] at h
      split at h
      · cases h
      · rename_i hget here
        cases h
        exact .worked hget here
      · cases h
  | finish j failed =>
      simp only [step?] at h
      split at h
      · cases h
      · rename_i hget here
        cases h
        exact .finished hget here
      · cases h
  | leave j =>
      simp only [step?] at h
      split at h
      · rename_i hget
        cases h
        exact .left hget
      · rename_i hget
        cases h
        exact .left hget
      · cases h
  | shutdown =>
      simp only [step?] at h
      split at h
      · rename_i staffed
        cases h
        exact .shut staffed
      · cases h
  | stop =>
      simp only [step?] at h
      split at h
      · rename_i staffed
        cases h
        exact .stopped staffed
      · cases h
  | enter =>
      cases h
      exact .entered
  | look i =>
      rcases Option.map_eq_some_iff.1 h with ⟨n, look, rfl⟩
      exact .looked look
  | wake i =>
      rcases Option.map_eq_some_iff.1 h with ⟨n, wake, rfl⟩
      exact .woken wake
  | join =>
      simp only [step?] at h
      split at h
      · rename_i i draining
        split at h
        · rename_i returned
          cases h
          exact .joins draining returned
        · cases h
      · cases h
  | discard j =>
      simp only [step?] at h
      split at h
      · rename_i hget joining
        cases h
        exact .discarded hget joining
      · cases h
  | joined =>
      simp only [step?] at h
      split at h
      · rename_i joining
        split at h
        · rename_i still
          cases h
          refine .gone joining ?_
          intro job mem
          have kept := List.all_eq_true.1 still job mem
          simp only [Bool.and_eq_true, bne_iff_ne] at kept
          exact ⟨kept.1.1, fun failed => by cases failed <;> simp [kept]⟩
        · cases h
      · cases h

/-! ## Work from those who answer for it -/

/-- The event brings work only from somebody who answers for it. -/
def Event.Admitted (c : Crew) : Event → Prop
  | .takeGuard o | .count o => c.admits o = true
  | _ => True

/-- A step of the orderly machine is a step with an admitted event. -/
theorem admitted_of_orderlyStep? {c c' : Crew} {e : Event} (h : c.orderlyStep? e = some c') :
    e.Admitted c ∧ c.step? e = some c' := by
  cases e with
  | takeGuard o =>
      simp only [orderlyStep?] at h
      split at h
      · rename_i admits
        exact ⟨admits, h⟩
      · cases h
  | count o =>
      simp only [orderlyStep?] at h
      split at h
      · rename_i admits
        exact ⟨admits, h⟩
      · cases h
  | _ => exact ⟨trivial, h⟩

theorem orderlyStep?_of_admitted {c : Crew} {e : Event} (admitted : e.Admitted c) :
    c.orderlyStep? e = c.step? e := by
  cases e with
  | takeGuard o => exact if_pos admitted
  | count o => exact if_pos admitted
  | _ => rfl

end Crew
end LineExchange
