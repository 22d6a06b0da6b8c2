import LineExchange.Proofs.Work.Moves

/-!
# Jobs — what the events of a crew do to its jobs

Most events of a crew leave its jobs alone; the others add one job or move one job on.  This file
defines `Crew.JobMove`, which says for each event what it may do to the jobs, and proves that an
event does nothing else (`jobMove_of_step?`).
-/

namespace LineExchange

def Job.hasEnded : Job → Bool
  | .leaving _ | .done | .failed => true
  | .counted | .live | .dropped => false

namespace Crew

def Event.isQuiet : Event → Bool
  | .count _ | .enqueue _ | .finish .. | .leave _ | .discard _ => false
  | _ => true

def Event.isClosing : Event → Bool
  | .shutdown | .stop | .join | .joined => true
  | _ => false

inductive JobMove : Event → List Job → List Job → Prop where
  | quiet {e : Event} {js : List Job} (hnone : e.isQuiet = true) : JobMove e js js
  | counted {o : Origin} {js : List Job} : JobMove (.count o) js (js ++ [.counted])
  | enqueued {j : Nat} {js : List Job} (hget : js[j]? = some .counted) :
      JobMove (.enqueue j) js (js.set j .live)
  | turnedAway {j : Nat} {js : List Job} (hget : js[j]? = some .counted) :
      JobMove (.enqueue j) js (js.set j .dropped)
  | finished {j : Nat} {failed : Bool} {js : List Job} (hget : js[j]? = some .live) :
      JobMove (.finish j failed) js (js.set j (.leaving failed))
  | left {j : Nat} {failed : Bool} {js : List Job} (hget : js[j]? = some (.leaving failed)) :
      JobMove (.leave j) js (js.set j (if failed then .failed else .done))
  | discarded {j : Nat} {js : List Job} (hget : js[j]? = some .live) :
      JobMove (.discard j) js (js.set j .dropped)

@[simp] theorem jobs_giveUp (c : Crew) : c.giveUp.jobs = c.jobs := by
  unfold giveUp
  split <;> rfl

@[simp] theorem jobs_uncount (c : Crew) (j : Nat) (b : Job) :
    (c.uncount j b).jobs = c.jobs.set j b := rfl

/-- An event does to the jobs what `JobMove` says. -/
theorem jobMove_of_step? {c c' : Crew} {e : Event} (h : c.step? e = some c') :
    JobMove e c.jobs c'.jobs := by
  cases Move.of_step? h with
  | counted => exact .counted
  | enqueued hget => exact .enqueued hget
  | turnedAway hget => exact .turnedAway hget
  | finished hget => exact .finished hget
  | left hget => exact .left hget
  | discarded hget => exact .discarded hget
  | shut => exact jobs_giveUp c ▸ .quiet rfl
  | stopped => exact jobs_giveUp c ▸ .quiet rfl
  | _ => exact .quiet rfl

/-- A job that moves on without a last step changes nothing about who ended. -/
theorem hasEnded_set {js : List Job} {j : Nat} {b b' : Job} (hget : js[j]? = some b)
    (same : b'.hasEnded = b.hasEnded) :
    (js.set j b').length = js.length ∧ ∀ (i : Nat) (d' : Job), (js.set j b')[i]? = some d' →
      ∃ d, js[i]? = some d ∧ d'.hasEnded = d.hasEnded := by
  refine ⟨List.length_set, ?_⟩
  intro i d' h
  rw [List.getElem?_set] at h
  split at h
  · rename_i here
    subst here
    split at h
    · cases h
      exact ⟨b, hget, same⟩
    · cases h
  · exact ⟨d', h, rfl⟩

/-- Jobs end by their last steps only. -/
theorem JobMove.hasEnded {e : Event} {js js' : List Job} (move : JobMove e js js')
    (noCount : ∀ o, e ≠ .count o) (noFinish : ∀ j failed, e ≠ .finish j failed) :
    js'.length = js.length ∧ ∀ (i : Nat) (b' : Job), js'[i]? = some b' →
      ∃ b, js[i]? = some b ∧ b'.hasEnded = b.hasEnded := by
  cases move with
  | quiet => exact ⟨rfl, fun i b' h => ⟨b', h, rfl⟩⟩
  | counted => exact absurd rfl (noCount _)
  | enqueued hget => exact hasEnded_set hget rfl
  | turnedAway hget => exact hasEnded_set hget rfl
  | finished => exact absurd rfl (noFinish _ _)
  | @left j failed js hget =>
      exact hasEnded_set hget (by cases failed <;> rfl)
  | discarded hget => exact hasEnded_set hget rfl

/-- Only the crew's own end brings it nearer to its end. -/
theorem closing_of_step? {c c' : Crew} {e : Event} (h : c.step? e = some c')
    (other : e.isClosing = false) : c'.closing = c.closing := by
  cases Move.of_step? h with
  | shut => cases other
  | stopped => cases other
  | joins => cases other
  | gone => cases other
  | _ => rfl

/-- A job that may take steps is on the loop. -/
theorem live_of_work {c c' : Crew} {j : Nat} (h : c.step? (.work j) = some c') :
    c.jobs[j]? = some .live := by
  cases Move.of_step? h with
  | worked hget => exact hget

/-- A job that is dropped as the loop goes down was on it. -/
theorem live_of_discard {c c' : Crew} {j : Nat} (h : c.step? (.discard j) = some c') :
    c.jobs[j]? = some .live := by
  cases Move.of_step? h with
  | discarded hget => exact hget

/-- A job that ends and leaves writes its own place and no other. -/
theorem of_finish_leave {c c' : Crew} {j : Nat} {failed : Bool}
    (h : (c.step? (.finish j failed)).bind (fun d => d.step? (.leave j)) = some c') :
    (∃ b, c'.jobs = c.jobs.set j b) ∧ c'.closing = c.closing := by
  rcases Option.bind_eq_some_iff.1 h with ⟨d, finish, leave⟩
  have closing : c'.closing = c.closing :=
    (closing_of_step? leave rfl).trans (closing_of_step? finish rfl)
  refine ⟨?_, closing⟩
  cases Move.of_step? finish with
  | finished => cases Move.of_step? leave with
      | left => exact ⟨_, List.set_set ..⟩

end Crew
end LineExchange
