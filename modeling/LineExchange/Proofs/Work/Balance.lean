import LineExchange.Proofs.History
import LineExchange.Proofs.Work.Jobs

/-!
# Balance — the count of a crew is the work that is outstanding

The count of a crew goes up and down in many places, and a fall below zero would not show.  This
file defines:

* `Crew.units` — the units of work, by those who hold them: the jobs that are neither over nor
  dropped, the guards that are held, and the crew that keeps itself alive;
* `Crew.Balanced` — the count is the number of units, and the crew keeps itself alive as long as
  nobody closes it;
* `Crew.Idle` — no unit is left, and nobody may bring another.

The invariant `Balanced` is kept by every move (`Balanced.of_move`), whoever brings the work, so it
holds after every run.
-/

namespace LineExchange

namespace Count

variable {n n' : Count} {i : Nat}

@[simp] theorem outstanding_acquire (n : Count) : n.acquire.outstanding = n.outstanding + 1 := rfl

@[simp] theorem outstanding_release (n : Count) : n.release.outstanding = n.outstanding - 1 := rfl

@[simp] theorem outstanding_enter (n : Count) : n.enter.outstanding = n.outstanding := rfl

/-- One who looks, or is woken, leaves the count as it is; it has seen no work if it returns. -/
theorem step?_look (h : n.step? (.look i) = some n') :
    ∃ w, n.waiters[i]? = some w ∧ n'.waiters = n.waiters.set i (w.look n.isBusy) ∧
      n'.outstanding = n.outstanding := by
  simp only [step?] at h
  split at h
  · rename_i w hget
    split at h <;> cases h
    exact ⟨w, hget, rfl, rfl⟩
  · cases h

theorem step?_wake (h : n.step? (.wake i) = some n') :
    n'.waiters = n.waiters.set i .woken ∧ n'.outstanding = n.outstanding := by
  simp only [step?] at h
  split at h <;> cases h
  exact ⟨rfl, rfl⟩

end Count

namespace Crew

variable {c c' : Crew} {e : Event} {j : Nat}

/-- The units of outstanding work, by those who hold them. -/
def units (c : Crew) : Nat :=
  c.jobs.countP Job.isCounted + c.guards.countP id + c.keepsAlive.toNat

structure Balanced (c : Crew) : Prop where
  outstanding : c.outstanding = c.units
  keepsAlive : c.keepsAlive = true ↔ c.closing = .staffed

/-- No unit of work is left, and nobody may bring another. -/
structure Idle (c : Crew) : Prop where
  jobs : ∀ job ∈ c.jobs, job.isCounted = false
  guards : ∀ g : Nat, c.guards[g]? ≠ some true
  closes : c.closing ≠ .staffed

/-- One entry of a list changes, and what is counted changes by what that entry counts for. -/
theorem countP_set_of_getElem? {α : Type} {p : α → Bool} {l : List α} {i : Nat} {a b : α}
    (hget : l[i]? = some a) : (l.set i b).countP p + (p a).toNat = l.countP p + (p b).toNat := by
  obtain ⟨lt, rfl⟩ := List.getElem?_eq_some_iff.1 hget
  -- The entry is among those that were counted, so the subtraction of naturals is exact.
  have counted : (if p l[i] then 1 else 0) ≤ l.countP p := List.boole_getElem_le_countP lt
  have changed : (l.set i b).countP p =
      l.countP p - (if p l[i] then 1 else 0) + if p b then 1 else 0 := List.countP_set lt
  have unit (x : Bool) : x.toNat = if x then 1 else 0 := by cases x <;> rfl
  rw [unit, unit]
  omega

namespace Balanced

theorem ofSize (size : Nat) : Balanced (ofSize size) where
  outstanding := rfl
  keepsAlive := by simp [Crew.ofSize]

/-- A job moves on and is counted as before. -/
theorem setJob {job job' : Job} (hb : Balanced c) (hget : c.jobs[j]? = some job)
    (same : job'.isCounted = job.isCounted) : Balanced { c with jobs := c.jobs.set j job' } where
  outstanding := by
    have jobs := countP_set_of_getElem? (p := Job.isCounted) (b := job') hget
    have before := hb.outstanding
    simp only [Crew.outstanding, units] at before ⊢
    rw [same] at jobs
    omega
  keepsAlive := hb.keepsAlive

theorem uncount {job job' : Job} (hb : Balanced c) (hget : c.jobs[j]? = some job)
    (counted : job.isCounted = true) (gone : job'.isCounted = false) :
    Balanced (c.uncount j job') where
  outstanding := by
    have jobs := countP_set_of_getElem? (p := Job.isCounted) (b := job') hget
    have before := hb.outstanding
    simp only [Crew.outstanding, units, Crew.uncount, Count.outstanding_release] at before ⊢
    rw [counted, gone, Bool.toNat_true, Bool.toNat_false] at jobs
    omega
  keepsAlive := hb.keepsAlive

theorem giveUp (hb : Balanced c) (staffed : c.closing = .staffed) :
    c.giveUp.outstanding = units { c with keepsAlive := false } := by
  have before := hb.outstanding
  have keeps := hb.keepsAlive.2 staffed
  simp only [Crew.outstanding, units, Crew.giveUp, keeps, if_true, Count.outstanding_release,
    Bool.toNat_true, Bool.toNat_false] at before ⊢
  omega

/-- A crew that begins to close gives back its own unit, whoever waits for it afterwards. -/
theorem close {closing : Closing} {n : Count} (hb : Balanced c) (staffed : c.closing = .staffed)
    (same : n.outstanding = c.giveUp.outstanding) (closes : closing ≠ .staffed) :
    Balanced { c.giveUp with count := n, closing } where
  outstanding := by
    have given := same.trans (hb.giveUp staffed)
    simpa [Crew.outstanding, Crew.giveUp, hb.keepsAlive.2 staffed, units] using given
  keepsAlive := by simp [Crew.giveUp, hb.keepsAlive.2 staffed, closes]

/-- The closing of a crew changes, and its units do not. -/
theorem reclose {closing : Closing} (hb : Balanced c) (before : c.closing ≠ .staffed)
    (behind : closing ≠ .staffed) : Balanced { c with closing } where
  outstanding := hb.outstanding
  keepsAlive := by
    have given : c.keepsAlive ≠ true := mt hb.keepsAlive.1 before
    simp [given, behind]

/-- What changes no more than who waits keeps the balance. -/
theorem recount {n : Count} (hb : Balanced c) (same : n.outstanding = c.count.outstanding) :
    Balanced { c with count := n } where
  outstanding := by
    have before := hb.outstanding
    simpa only [Crew.outstanding, units, same] using before
  keepsAlive := hb.keepsAlive

/-- Every move keeps the balance. -/
theorem of_move (hb : Balanced c) (move : Move c e c') : Balanced c' := by
  cases move with
  | guardTaken =>
      refine ⟨?_, hb.keepsAlive⟩
      have before := hb.outstanding
      simp only [Crew.outstanding, units, Count.outstanding_acquire, List.countP_append,
        List.countP_singleton] at before ⊢
      simp only [id, if_true]
      omega
  | guardDropped held =>
      refine ⟨?_, hb.keepsAlive⟩
      have guards := countP_set_of_getElem? (p := id) (b := false) held
      have before := hb.outstanding
      simp only [Crew.outstanding, units, Count.outstanding_release] at before ⊢
      simp only [id, Bool.toNat_true, Bool.toNat_false] at guards
      omega
  | counted =>
      refine ⟨?_, hb.keepsAlive⟩
      have before := hb.outstanding
      simp only [Crew.outstanding, units, Count.outstanding_acquire, List.countP_append,
        List.countP_singleton, Job.isCounted, if_true] at before ⊢
      omega
  | enqueued hget => exact hb.setJob hget rfl
  | turnedAway hget => exact hb.uncount hget rfl rfl
  | worked => exact hb
  | finished hget => exact hb.setJob hget rfl
  | @left j failed hget => exact hb.uncount hget rfl (by cases failed <;> rfl)
  | shut staffed => exact hb.close staffed rfl (by simp)
  | stopped staffed => exact hb.close staffed rfl (by simp)
  | entered => exact hb.recount rfl
  | looked look =>
      rcases Count.step?_look look with ⟨-, -, -, same⟩
      exact hb.recount same
  | woken wake => exact hb.recount (Count.step?_wake wake).2
  | joins draining => exact hb.reclose (by simp [draining]) (by simp)
  | discarded hget => exact hb.uncount hget rfl rfl
  | gone joining => exact hb.reclose (by simp [joining]) (by simp)

theorem idle (hb : Balanced c) (zero : c.outstanding = 0) : c.Idle := by
  have hnone := hb.outstanding.symm.trans zero
  simp only [units, Nat.add_eq_zero_iff, List.countP_eq_zero] at hnone
  rcases hnone with ⟨⟨jobs, guards⟩, given⟩
  refine ⟨?_, ?_, ?_⟩
  · intro job mem
    exact Bool.eq_false_iff.2 (jobs job mem)
  · intro g held
    exact guards true (List.mem_of_getElem? held) rfl
  · intro staffed
    rw [hb.keepsAlive.2 staffed] at given
    cases given

end Balanced

namespace Idle

theorem not_counted {job : Job} (idle : c.Idle) (hget : c.jobs[j]? = some job)
    (counted : job.isCounted = true) : False := by
  have uncounted := idle.jobs job (List.mem_of_getElem? hget)
  rw [counted] at uncounted
  cases uncounted

/-- Nobody may bring work to an idle crew. -/
theorem admits_eq_false (idle : c.Idle) (o : Origin) : c.admits o = false := by
  cases o with
  | owner => simpa [admits] using idle.closes
  | job j =>
      have dead : c.jobs[j]? ≠ some .live := fun hget => idle.not_counted hget rfl
      simpa [admits] using dead
  | guard g => simpa [admits] using idle.guards g
  | stranger => rfl

end Idle

/-! ## Runs -/

theorem balanced_of_run {size : Nat} {es : List Event}
    (run : (machine size).run? (ofSize size) es = some c) : Balanced c := by
  refine Machine.run?_induction (motive := fun _ c => Balanced c) (Balanced.ofSize size) ?_ run
  intro es c c' e _ last hb
  exact hb.of_move (.of_step? last)

end Crew
end LineExchange
