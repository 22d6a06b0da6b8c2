import LineExchange.Proofs.Work.Balance

/-!
# Shutdown — a crew that is closed gracefully abandons nothing

A crew that is shut down gives up its own unit of work, waits for the count to be zero, and takes
the loop down only then.  In the meantime jobs may bring jobs and take guards, and so may those who
hold a guard.  This file defines:

* `Crew.Graceful` — no job is dropped, and the closing thread goes on only when no work is left;
* `Crew.AtRest` — the crew is gone, idle, and its jobs are as they are.

The invariant `Graceful` is kept by every move but a stop, if work comes only from those who answer
for it (`Graceful.of_move`).  It rests on this: when the count is zero once, nobody is left who may
bring work, so it stays zero (`Idle.admits_eq_false`).
-/

namespace LineExchange

namespace Waiter

@[simp] theorem wake_eq_returned {w : Waiter} : w.wake = .returned ↔ w = .returned := by
  cases w <;> simp [wake]

theorem eq_of_look_eq_returned {w : Waiter} {busy : Bool} (h : w.look busy = .returned) :
    w = .returned ∨ busy = false := by
  cases w <;> cases busy <;> simp_all [look]

end Waiter

namespace Count

/-- A release wakes, and lets nobody return. -/
theorem returned_of_release {n : Count} {i : Nat}
    (h : n.release.waiters[i]? = some .returned) : n.waiters[i]? = some .returned := by
  simp only [release] at h
  split at h
  · simp only [List.getElem?_map, Option.map_eq_some_iff] at h
    rcases h with ⟨w, hget, woken⟩
    rw [hget, Waiter.wake_eq_returned.1 woken]
  · exact h

theorem returned_of_enter {n : Count} {i : Nat}
    (h : n.enter.waiters[i]? = some .returned) : n.waiters[i]? = some .returned := by
  simp only [enter, List.getElem?_append, List.getElem?_singleton] at h
  split at h
  · exact h
  · split at h <;> cases h

end Count

namespace Crew

variable {c c' d : Crew} {e : Event} {j : Nat}

def HasSeenNone (c : Crew) : Prop :=
  ∃ i, c.closing = .draining i ∧ c.count.waiters[i]? = some .returned

/-- No job is dropped, and the closing thread goes on only when no work is left. -/
structure Graceful (c : Crew) : Prop where
  kept : .dropped ∉ c.jobs
  waited : c.HasSeenNone → c.outstanding = 0
  down : c.isUp = false → c.outstanding = 0

/-! ## The closing thread waits -/

/-- A job goes on without being dropped. -/
theorem not_dropped_set {job : Job} (kept : Job.dropped ∉ c.jobs) (other : job ≠ .dropped) :
    Job.dropped ∉ c.jobs.set j job := by
  intro mem
  rcases List.mem_or_eq_of_mem_set mem with old | new
  · exact kept old
  · exact other new.symm

namespace Graceful

theorem ofSize (size : Nat) : Graceful (ofSize size) where
  kept := by simp [Crew.ofSize]
  waited seen := by
    rcases seen with ⟨i, draining, -⟩
    cases draining
  down isDown := by cases isDown

/-- What leaves the closing and the waiters alone, and adds no work to a count of zero, is
graceful if it drops no job. -/
theorem keep (hg : Graceful c) (kept : .dropped ∉ c'.jobs) (closing : c'.closing = c.closing)
    (waiters : ∀ i : Nat, c'.count.waiters[i]? = some .returned →
      c.count.waiters[i]? = some .returned)
    (zero : c.outstanding = 0 → c'.outstanding = 0) : Graceful c' where
  kept := kept
  waited seen := by
    rcases seen with ⟨i, draining, returned⟩
    rw [closing] at draining
    exact zero (hg.waited ⟨i, draining, waiters i returned⟩)
  down isDown := by
    have same : c'.isUp = c.isUp := by simp only [isUp, closing]
    exact zero (hg.down (same ▸ isDown))

theorem uncount {job : Job} (hg : Graceful c) (other : job ≠ .dropped) :
    Graceful (c.uncount j job) := by
  refine hg.keep (not_dropped_set hg.kept other) rfl (fun _ => Count.returned_of_release) ?_
  intro zero
  simp only [Crew.outstanding, Crew.uncount, Count.outstanding_release] at zero ⊢
  omega

/-- One who waits looks: the closing thread returns only if it sees no work. -/
theorem look {i : Nat} {n : Count} (hg : Graceful c) (look : c.count.step? (.look i) = some n) :
    Graceful { c with count := n } := by
  rcases Count.step?_look look with ⟨w, hget, waiters, same⟩
  have zero (h : c.outstanding = 0) : n.outstanding = 0 := same.trans h
  refine ⟨hg.kept, ?_, fun isDown => zero (hg.down isDown)⟩
  rintro ⟨k, draining, returned⟩
  apply zero
  by_cases own : i = k
  · subst own
    have lt := (List.getElem?_eq_some_iff.1 hget).1
    have seen : w.look c.count.isBusy = .returned := by
      simpa [waiters, List.getElem?_set_self lt] using returned
    rcases Waiter.eq_of_look_eq_returned seen with before | idle
    · exact hg.waited ⟨i, draining, before ▸ hget⟩
    · simpa [Count.isBusy, Crew.outstanding] using idle
  · have before : c.count.waiters[k]? = some .returned := by
      simpa [waiters, List.getElem?_set_ne own] using returned
    exact hg.waited ⟨k, draining, before⟩

theorem wake {i : Nat} {n : Count} (hg : Graceful c) (wake : c.count.step? (.wake i) = some n) :
    Graceful { c with count := n } := by
  rcases Count.step?_wake wake with ⟨waiters, same⟩
  refine hg.keep hg.kept rfl ?_ (fun zero => same.trans zero)
  intro k returned
  simp only [waiters, List.getElem?_set] at returned
  split at returned
  · split at returned <;> cases returned
  · exact returned

/-- More work comes only while there is work. -/
theorem not_idle_of_admitted {o : Origin} (hb : Balanced c) (admitted : c.admits o = true) :
    c.outstanding ≠ 0 := by
  intro zero
  rw [(hb.idle zero).admits_eq_false o] at admitted
  cases admitted

/-- Every move but a stop is graceful, if it brings work only from those who answer for it. -/
theorem of_move (hg : Graceful c) (hb : Balanced c) (move : Move c e c')
    (admitted : e.Admitted c) (noStop : e ≠ .stop) : Graceful c' := by
  cases move with
  | guardTaken =>
      have busy := not_idle_of_admitted hb admitted
      exact hg.keep hg.kept rfl (fun _ => id) (fun zero => absurd zero busy)
  | guardDropped held =>
      refine hg.keep hg.kept rfl (fun _ => Count.returned_of_release) ?_
      intro zero
      exact absurd held ((hb.idle zero).guards _)
  | counted =>
      have busy := not_idle_of_admitted hb admitted
      exact hg.keep (by simpa using hg.kept) rfl (fun _ => id) (fun zero => absurd zero busy)
  | enqueued => exact hg.keep (not_dropped_set hg.kept (by simp)) rfl (fun _ => id) id
  | turnedAway hget down =>
      -- The loop goes down when no job is counted, and this one is.
      exact ((hb.idle (hg.down down)).not_counted hget rfl).elim
  | worked => exact hg
  | finished => exact hg.keep (not_dropped_set hg.kept (by simp)) rfl (fun _ => id) id
  | @left j failed => exact hg.uncount (by cases failed <;> simp)
  | shut staffed =>
      refine ⟨by simpa using hg.kept, ?_, fun isDown => by cases isDown⟩
      rintro ⟨i, draining, returned⟩
      -- The closing thread has only just come to wait.
      cases draining
      simp [Count.enter] at returned
  | stopped => exact absurd rfl noStop
  | entered => exact hg.keep hg.kept rfl (fun _ => Count.returned_of_enter) id
  | looked look => exact hg.look look
  | woken wake => exact hg.wake wake
  | joins draining returned =>
      have zero := hg.waited ⟨_, draining, returned⟩
      refine ⟨hg.kept, ?_, fun _ => zero⟩
      rintro ⟨i, draining', -⟩
      cases draining'
  | discarded hget joining =>
      have down : c.isUp = false := by simp [isUp, joining]
      exact ((hb.idle (hg.down down)).not_counted hget rfl).elim
  | gone joining =>
      have down : c.isUp = false := by simp [isUp, joining]
      refine ⟨hg.kept, ?_, fun _ => hg.down down⟩
      rintro ⟨i, draining, -⟩
      cases draining

/-- When nothing is left to wait for, every job came to its end or failed. -/
theorem all_ended (hg : Graceful c) (idle : c.Idle) :
    ∀ job ∈ c.jobs, job = .done ∨ job = .failed := by
  intro job mem
  have uncounted := idle.jobs job mem
  cases job with
  | done => exact .inl rfl
  | failed => exact .inr rfl
  | dropped => exact absurd mem hg.kept
  | counted => cases uncounted
  | live => cases uncounted
  | leaving => cases uncounted

end Graceful

/-! ## Nothing happens behind the end -/

structure AtRest (jobs : List Job) (c : Crew) : Prop where
  closed : c.closing = .closed
  idle : c.Idle
  jobs_eq : c.jobs = jobs

namespace AtRest

variable {jobs : List Job}

/-- A crew at rest stays at rest, if work comes only from those who answer for it. -/
theorem of_move (hr : AtRest jobs c) (move : Move c e c') (admitted : e.Admitted c) :
    AtRest jobs c' := by
  have nobody (o : Origin) : c.admits o ≠ true := by simp [hr.idle.admits_eq_false o]
  cases move with
  | guardTaken => exact absurd admitted (nobody _)
  | guardDropped held => exact absurd held (hr.idle.guards _)
  | counted => exact absurd admitted (nobody _)
  | enqueued hget => exact (hr.idle.not_counted hget rfl).elim
  | turnedAway hget => exact (hr.idle.not_counted hget rfl).elim
  | worked => exact hr
  | finished hget => exact (hr.idle.not_counted hget rfl).elim
  | left hget => exact (hr.idle.not_counted hget rfl).elim
  | shut staffed => exact absurd staffed hr.idle.closes
  | stopped staffed => exact absurd staffed hr.idle.closes
  | entered => exact ⟨hr.closed, ⟨hr.idle.jobs, hr.idle.guards, hr.idle.closes⟩, hr.jobs_eq⟩
  | looked => exact ⟨hr.closed, ⟨hr.idle.jobs, hr.idle.guards, hr.idle.closes⟩, hr.jobs_eq⟩
  | woken => exact ⟨hr.closed, ⟨hr.idle.jobs, hr.idle.guards, hr.idle.closes⟩, hr.jobs_eq⟩
  | joins draining => exact absurd (hr.closed.symm.trans draining) (by simp)
  | discarded hget => exact (hr.idle.not_counted hget rfl).elim
  | gone joining => exact absurd (hr.closed.symm.trans joining) (by simp)

theorem still (hr : AtRest jobs c) (j : Nat) :
    c.step? (.work j) = none ∧ ∀ failed, c.step? (.finish j failed) = none := by
  refine ⟨?_, ?_⟩
  · cases h : c.step? (.work j) with
    | none => rfl
    | some c' => cases Move.of_step? h with
        | worked hget => exact (hr.idle.not_counted hget rfl).elim
  · intro failed
    cases h : c.step? (.finish j failed) with
    | none => rfl
    | some c' => cases Move.of_step? h with
        | finished hget => exact (hr.idle.not_counted hget rfl).elim

end AtRest

/-! ## Runs -/

variable {size : Nat} {es fs : List Event} {jobs : List Job}

def Event.bringsJob : Event → Bool
  | .count _ => true
  | _ => false

/-- No job is ever forgotten. -/
theorem length_jobs_of_move (move : Move c e c') :
    c'.jobs.length = c.jobs.length + if e.bringsJob then 1 else 0 := by
  cases move <;> simp [Event.bringsJob]

/-- The crew knows every job that was ever brought. -/
theorem length_jobs_of_run (run : (orderly size).run? (ofSize size) es = some c) :
    c.jobs.length = es.countP Event.bringsJob := by
  refine Machine.run?_induction (motive := fun es c => c.jobs.length = es.countP Event.bringsJob)
    rfl ?_ run
  intro es c c' e _ last ih
  have move : Move c e c' := .of_step? (admitted_of_orderlyStep? last).2
  calc c'.jobs.length = c.jobs.length + if e.bringsJob then 1 else 0 := length_jobs_of_move move
    _ = es.countP Event.bringsJob + [e].countP Event.bringsJob := by
      rw [ih, List.countP_singleton]
    _ = (es ++ [e]).countP Event.bringsJob := List.countP_append.symm

/-- A crew that was closed is not staffed again. -/
theorem not_staffed_of_move (move : Move c e c') (behind : c'.closing = .staffed) :
    c.closing = .staffed ∧ e ≠ .shutdown ∧ e ≠ .stop := by
  cases move with
  | shut => cases behind
  | stopped => cases behind
  | joins => cases behind
  | gone => cases behind
  | _ => exact ⟨behind, by simp, by simp⟩

/-- A crew that was shut down was never stopped, and it is not staffed. -/
theorem closing_of_run (run : (orderly size).run? (ofSize size) es = some c)
    (shut : .shutdown ∈ es) : .stop ∉ es ∧ c.closing ≠ .staffed := by
  refine Machine.run?_induction (motive := fun es c =>
    (c.closing = .staffed → .shutdown ∉ es ∧ .stop ∉ es) ∧
      (.shutdown ∈ es → .stop ∉ es ∧ c.closing ≠ .staffed)) (by simp) ?_ run |>.2 shut
  intro es c c' e _ last ih
  rcases ih with ⟨hopen, closed⟩
  have move : Move c e c' := .of_step? (admitted_of_orderlyStep? last).2
  have staffed : c'.closing = .staffed → .shutdown ∉ es ++ [e] ∧ .stop ∉ es ++ [e] := by
    intro behind
    rcases not_staffed_of_move move behind with ⟨before, notShut, notStop⟩
    have neither := hopen before
    simp [neither, Ne.symm notShut, Ne.symm notStop]
  refine ⟨staffed, ?_⟩
  intro mem
  have notStaffed : c'.closing ≠ .staffed := fun behind => (staffed behind).1 mem
  refine ⟨?_, notStaffed⟩
  -- Only a staffed crew is shut down or stopped, so the second of the two cannot come.
  rcases List.mem_append.1 mem with earlier | now
  · have notStop : e ≠ .stop := by
      rintro rfl
      cases move with
      | stopped before => exact (closed earlier).2 before
    simp [(closed earlier).1, Ne.symm notStop]
  · obtain rfl : Event.shutdown = e := by simpa using now
    cases move with
    | shut before => simp [(hopen before).2]

/-- The count of an orderly crew is the number of its units, and as long as the crew is not stopped
it abandons nothing. -/
theorem graceful_of_run (run : (orderly size).run? (ofSize size) es = some c)
    (noStop : .stop ∉ es) : Balanced c ∧ Graceful c := by
  refine Machine.run?_induction (motive := fun es c => .stop ∉ es → Balanced c ∧ Graceful c)
    (fun _ => ⟨Balanced.ofSize size, Graceful.ofSize size⟩) ?_ run noStop
  intro es c c' e _ last ih hnone
  rw [List.mem_append, List.mem_singleton, not_or] at hnone
  rcases ih hnone.1 with ⟨hb, hg⟩
  rcases admitted_of_orderlyStep? last with ⟨admitted, step⟩
  have move : Move c e c' := .of_step? step
  exact ⟨hb.of_move move, hg.of_move hb move admitted (Ne.symm hnone.2)⟩

/-- A crew that was shut down and is gone is at rest, and its jobs came to their ends or failed. -/
theorem atRest_of_run (run : (orderly size).run? (ofSize size) es = some c)
    (shut : .shutdown ∈ es) (gone : c.closing = .closed) :
    AtRest c.jobs c ∧ ∀ job ∈ c.jobs, job = .done ∨ job = .failed := by
  have noStop := (closing_of_run run shut).1
  rcases graceful_of_run run noStop with ⟨balanced, graceful⟩
  have down : c.isUp = false := by simp [isUp, gone]
  have idle : c.Idle := balanced.idle (graceful.down down)
  exact ⟨⟨gone, idle, rfl⟩, graceful.all_ended idle⟩

/-- What is at rest stays at rest. -/
theorem AtRest.of_run (hr : AtRest jobs c) (run : (orderly size).run? c fs = some d) :
    AtRest jobs d := by
  refine Machine.run?_induction (motive := fun _ d => AtRest jobs d) hr ?_ run
  intro fs d d' e _ last rest
  rcases admitted_of_orderlyStep? last with ⟨admitted, step⟩
  exact rest.of_move (.of_step? step) admitted

end Crew
end LineExchange
