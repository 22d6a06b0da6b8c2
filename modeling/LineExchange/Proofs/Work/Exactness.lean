import LineExchange.Proofs.Work.Balance

/-!
# Exactness — every unit of work is counted once, and given back once

A release that found nothing to give back would pass unnoticed, because the count stops at zero.
This file shows that there is none: each event moves the count by just the units that it brings and
gives back.  It defines:

* `Crew.Event.acquires` and `Crew.releases` — the events that bring a unit of work, and those that
  give one back;
* `Crew.guardsHeld` and `Crew.jobsAlive` — the guards that were not dropped, and the jobs that are
  neither over nor dropped;
* `Crew.Quiet` — no job is on its way to the loop, or just going from it;
* `Crew.Vacated` — a crew that is gone has no job on its loop.

Guards may be held longer than the crew is there, jobs may come to a loop that is gone, and whoever
closes the crew a second time has nothing to give back.
-/

namespace LineExchange
namespace Crew

variable {c c' : Crew} {e : Event} {j : Nat}

/-! ## What is alive -/

def guardsHeld (c : Crew) : Nat :=
  c.guards.countP id

def jobsAlive (c : Crew) : Nat :=
  c.jobs.countP (· == .live)

/-- No job is between its count and the loop, or between its last step and its leave. -/
def Quiet (c : Crew) : Prop :=
  ∀ job ∈ c.jobs, job ≠ .counted ∧ ∀ failed, job ≠ .leaving failed

/-- In a quiet crew the jobs that are counted are those that are alive. -/
theorem Quiet.countP_isCounted (quiet : c.Quiet) : c.jobs.countP Job.isCounted = c.jobsAlive := by
  refine List.countP_congr ?_
  intro job mem
  rcases quiet job mem with ⟨arrived, stays⟩
  cases job with
  | counted => exact absurd rfl arrived
  | leaving failed => exact absurd rfl (stays failed)
  | live | done | failed | dropped => simp [Job.isCounted]

/-! ## What an event brings and gives back -/

def Event.acquires : Event → Bool
  | .takeGuard _ | .count _ => true
  | _ => false

def releases (c : Crew) : Event → Bool
  | .dropGuard _ | .leave _ | .discard _ | .shutdown | .stop => true
  -- A job that comes to a loop that is gone is dropped with its unit.
  | .enqueue _ => !c.isUp
  | _ => false

/-- A crew that was closed has no unit of its own, so closing it again gives nothing back. -/
theorem Balanced.giveUp_eq_self (hb : Balanced c) (closes : c.closing ≠ .staffed) :
    c.keepsAlive = false ∧ c.giveUp = c := by
  have given : c.keepsAlive = false := Bool.eq_false_iff.2 (mt hb.keepsAlive.1 closes)
  refine ⟨given, ?_⟩
  unfold Crew.giveUp
  rw [if_neg (by simp [given])]

/-- A job that is counted had its unit in the count when it is counted no more. -/
theorem Balanced.outstanding_uncount {job : Job} (job' : Job) (hb : Balanced c)
    (hget : c.jobs[j]? = some job) (counted : job.isCounted = true) :
    (c.uncount j job').outstanding + 1 = c.outstanding := by
  have pos : c.outstanding ≠ 0 := fun zero => (hb.idle zero).not_counted hget counted
  simp only [Crew.outstanding, Crew.uncount, Count.outstanding_release] at pos ⊢
  omega

/-- A crew that gives up its own unit had it in the count. -/
theorem Balanced.outstanding_giveUp (hb : Balanced c) (staffed : c.closing = .staffed) :
    c.giveUp.outstanding + 1 = c.outstanding := by
  have given := hb.giveUp staffed
  have before := hb.outstanding
  simp only [units, hb.keepsAlive.2 staffed, Bool.toNat_true, Bool.toNat_false] at given before
  omega

/-- Every move changes the count by the units that it brings and gives back; the count never stops
short of it. -/
theorem Balanced.exact_of_move (hb : Balanced c) (move : Move c e c') :
    c'.outstanding + (if c.releases e then 1 else 0) =
      c.outstanding + if e.acquires then 1 else 0 := by
  cases move with
  | guardTaken => rfl
  | guardDropped held =>
      have pos : c.outstanding ≠ 0 := fun zero => (hb.idle zero).guards _ held
      simp only [Crew.outstanding, releases, Event.acquires, Count.outstanding_release] at pos ⊢
      simp only [if_true, Bool.false_eq_true, if_false]
      omega
  | counted => rfl
  | enqueued hget up => simp [Crew.outstanding, releases, Event.acquires, up]
  | turnedAway hget down =>
      have hexact := hb.outstanding_uncount .dropped hget rfl
      simpa [releases, Event.acquires, down] using hexact
  | left hget => exact hb.outstanding_uncount _ hget rfl
  | discarded hget => exact hb.outstanding_uncount _ hget rfl
  | shut staffed => exact hb.outstanding_giveUp staffed
  | stopped staffed => exact hb.outstanding_giveUp staffed
  | looked look =>
      rcases Count.step?_look look with ⟨-, -, -, same⟩
      exact same
  | woken wake => exact (Count.step?_wake wake).2
  | worked | finished | entered | joins | gone => rfl

/-! ## Jobs that come to a loop that is gone -/

/-- A job that comes to a loop that is going down, or is gone, is dropped there and leaves the count
as it was. -/
theorem exists_turnedAway (down : c.isUp = false) (o : Origin) :
    ∃ c₁ c₂, c.step? (.count o) = some c₁ ∧ c₁.step? (.enqueue c.jobs.length) = some c₂ ∧
      c₂.outstanding = c.outstanding ∧ c₂.jobs = c.jobs ++ [.dropped] := by
  let c₁ : Crew := { c with count := c.count.acquire, jobs := c.jobs ++ [.counted] }
  have here : c₁.jobs[c.jobs.length]? = some .counted := by simp [c₁]
  have down₁ : c₁.isUp = false := down
  refine ⟨c₁, c₁.uncount c.jobs.length .dropped, rfl, ?_, ?_, ?_⟩
  · simp only [step?, here, down₁]
    rfl
  · simp [Crew.outstanding, Crew.uncount, c₁]
  · simp [c₁]

/-- A crew that is gone has no job on its loop, and none that is just going from it. -/
def Vacated (c : Crew) : Prop :=
  c.closing = .closed → ∀ job ∈ c.jobs, job ≠ .live ∧ ∀ failed, job ≠ .leaving failed

/-- A job that is put off the loop leaves the crew vacated. -/
theorem Vacated.set {job : Job} (hv : Vacated c) (off : job ≠ .live ∧ ∀ failed, job ≠ .leaving failed) :
    Vacated { c with jobs := c.jobs.set j job } := by
  intro gone other mem
  rcases List.mem_or_eq_of_mem_set mem with old | rfl
  · exact hv gone other old
  · exact off

theorem Vacated.of_move (hv : Vacated c) (move : Move c e c') : Vacated c' := by
  cases move with
  | counted =>
      intro gone job mem
      rcases List.mem_append.1 mem with old | new
      · exact hv gone job old
      · rw [List.mem_singleton.1 new]
        simp
  | enqueued hget up =>
      intro gone
      have closed : c.closing = .closed := gone
      simp [isUp, closed] at up
  | finished hget here =>
      intro gone
      exact absurd gone here
  | turnedAway => exact hv.set (by simp)
  | @left j failed => exact hv.set (by cases failed <;> simp)
  | discarded => exact hv.set (by simp)
  | shut | stopped | joins =>
      intro gone
      cases gone
  | gone _ still => exact fun _ => still
  | guardTaken | guardDropped | worked | entered | looked | woken => exact hv

/-! ## Runs -/

variable {size : Nat} {es : List Event}

theorem vacated_of_run (run : (machine size).run? (ofSize size) es = some c) : Vacated c := by
  refine Machine.run?_induction (motive := fun _ c => Vacated c) ?_ ?_ run
  · intro gone
    cases gone
  · intro es c c' e _ last hv
    exact hv.of_move (.of_step? last)

/-- In every run of a crew, whoever takes guards and brings jobs, and however the crew is closed:
while no job is just coming or going, the count is the crew's own unit, which it has until it is
closed and gives back once, with the guards that are held and the jobs that are alive; whatever
happens next changes the count by just what it brings and gives back, so that no release finds the
count at zero; the count is zero exactly when nothing is alive; when the crew is gone only the
guards are left in the count; and a job that comes too late leaves the count as it was. -/
theorem count_is_exact_of_run (run : (machine size).run? (ofSize size) es = some c) :
    (c.Quiet → c.outstanding = (if c.keepsAlive then 1 else 0) + c.guardsHeld + c.jobsAlive) ∧
    ((c.keepsAlive = true ↔ c.closing = .staffed) ∧ (c.closing ≠ .staffed → c.giveUp = c)) ∧
    (∀ (e : Event) (c' : Crew), c.step? e = some c' →
      c'.outstanding + (if c.releases e then 1 else 0) =
        c.outstanding + if e.acquires then 1 else 0) ∧
    (c.outstanding = 0 ↔
      c.keepsAlive = false ∧ c.guardsHeld = 0 ∧ ∀ job ∈ c.jobs, job.isCounted = false) ∧
    (c.closing = .closed → c.Quiet → c.outstanding = c.guardsHeld) ∧
    (c.isUp = false → ∀ o, ∃ c₁ c₂, c.step? (.count o) = some c₁ ∧
      c₁.step? (.enqueue c.jobs.length) = some c₂ ∧ c₂.outstanding = c.outstanding ∧
      c₂.jobs = c.jobs ++ [.dropped]) := by
  have hb : Balanced c := balanced_of_run run
  have sum : c.outstanding =
      c.jobs.countP Job.isCounted + c.guardsHeld + c.keepsAlive.toNat := hb.outstanding
  have quiet : c.Quiet →
      c.outstanding = (if c.keepsAlive then 1 else 0) + c.guardsHeld + c.jobsAlive := by
    intro quiet
    have own : c.keepsAlive.toNat = if c.keepsAlive then 1 else 0 := by cases c.keepsAlive <;> rfl
    rw [sum, quiet.countP_isCounted, own]
    omega
  refine ⟨quiet, ⟨hb.keepsAlive, fun closes => (hb.giveUp_eq_self closes).2⟩,
    fun e c' step => hb.exact_of_move (.of_step? step), ?_, ?_, exists_turnedAway⟩
  · constructor
    · intro zero
      have idle := hb.idle zero
      exact ⟨(hb.giveUp_eq_self idle.closes).1, by omega, idle.jobs⟩
    · rintro ⟨own, guards, jobs⟩
      have hnone : c.jobs.countP Job.isCounted = 0 := by simpa [List.countP_eq_zero] using jobs
      rw [sum, own, guards, hnone]
      rfl
  · intro gone still
    have closes : c.closing ≠ .staffed := by simp [gone]
    have own := (hb.giveUp_eq_self closes).1
    -- A crew that is gone has dropped what it did not finish.
    have dead : c.jobsAlive = 0 := by
      refine List.countP_eq_zero.2 ?_
      intro job mem
      simpa using (vacated_of_run run gone job mem).1
    rw [quiet still, own, dead]
    simp

/-- One job fails and one is dropped by a crew that is stopped; a guard is held all the time, and a
job comes too late. -/
def outlivingRun : List Event :=
  [.takeGuard .owner, .count .owner, .enqueue 0, .count (.job 0), .enqueue 1, .finish 0 true, .leave 0,
    .stop, .discard 1, .joined, .count .stranger, .enqueue 2]

theorem count_is_exact_of_outlivingRun :
    ∃ c, (machine 1).run? (ofSize 1) outlivingRun = some c ∧ c.closing = .closed ∧
      c.jobs = [.failed, .dropped, .dropped] ∧ c.outstanding = 1 := by
  obtain ⟨c, run⟩ : ∃ c, (machine 1).run? (ofSize 1) outlivingRun = some c := ⟨_, rfl⟩
  have shown : c.closing = .closed ∧ c.jobs = [.failed, .dropped, .dropped] ∧ c.guardsHeld = 1 := by
    cases run
    exact ⟨rfl, rfl, rfl⟩
  rcases shown with ⟨gone, jobs, held⟩
  have quiet : c.Quiet := by simp [Quiet, jobs]
  rcases count_is_exact_of_run run with ⟨-, -, -, -, outlives, -⟩
  exact ⟨c, run, gone, jobs, (outlives gone quiet).trans held⟩

end Crew
end LineExchange
