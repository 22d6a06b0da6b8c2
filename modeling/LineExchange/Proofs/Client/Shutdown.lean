import LineExchange.Proofs.Client.Completion
import LineExchange.Proofs.Work.Shutdown

/-!
# Client shutdown — every accepted request reports before the client is gone

A client uses its crew in an orderly way: its owner submits while the crew is staffed, and after
that only callbacks submit, each from a job that is still running.  So the run of a client is an
orderly run of its crew (`crewRun_of_run`), and what is known of a crew that was shut down holds of
the jobs of its trips: each took its last step, and a trip takes its last step with its report.
-/

namespace LineExchange
namespace Client

variable {c c' d : Client} {e : Event} {threads : Nat} {es fs : List Event}

/-! ## A client uses its crew in an orderly way -/

theorem orderlyRun_of_step? {size : Nat} {crew crew' : Crew} {e : Crew.Event}
    (admitted : e.Admitted crew) (step : crew.step? e = some crew') :
    (Crew.orderly size).run? crew [e] = some crew' := by
  have orderly : crew.orderlyStep? e = some crew' :=
    (Crew.orderlyStep?_of_admitted admitted).trans step
  simp [Crew.orderly, orderly]

theorem staffed_of_submit {s : Submission} (h : c.step? (.submit s) = some c') :
    c.crew.closing = .staffed := by
  simp only [step?] at h
  split at h
  · rename_i staffed
    exact staffed
  · cases h

/-- A submission brings a job to the crew, or it does nothing. -/
theorem crew_of_submit {s : Submission} (o : Crew.Origin) :
    (c.submit s).1.crew = c.crew ∨ c.crew.step? (.count o) = some (c.submit s).1.crew := by
  cases free : c.desk.active.insert? s.id c.trips.length with
  | none => exact .inl (by rw [submit_of_taken free])
  | some r => exact .inr (by rw [submit_of_insert? free]; rfl)

/-- The events of the crew in one event of the client, and whether they shut it down. -/
theorem crewRun_of_step? (size : Nat) (h : c.step? e = some c') :
    ∃ cs, (Crew.orderly size).run? c.crew cs = some c'.crew ∧
      (.shutdown ∈ cs ↔ e = .shutdown) := by
  cases Move.of_step? h with
  | @admitted s r free =>
      have staffed : c.crew.admits .owner = true := by
        simp [Crew.admits, staffed_of_submit h]
      exact ⟨[.count .owner], orderlyRun_of_step? staffed rfl, by simp⟩
  | onCrew of step =>
      refine ⟨[_], orderlyRun_of_step? ?_ step, ?_⟩
      · cases e <;> cases of <;> trivial
      · cases e <;> cases of <;> simp
  | @called j t k o crew runs stage last finish =>
      exact ⟨[.finish j false], orderlyRun_of_step? trivial finish, by simp⟩
  | @resubmitted j t k o inUse accepted payload later d crew runs stage submitted finish =>
      have last : (Crew.orderly size).run? d.crew [.finish j false] = some crew :=
        orderlyRun_of_step? trivial finish
      have brought := crew_of_submit (c := c) (s := ⟨k.id, k.endpoint, payload, later⟩) (.job j)
      -- The callback may have brought a job of its own before this one ends.
      rw [submitted] at brought
      rcases brought with same | counted
      · exact ⟨[.finish j false], same ▸ last, by simp⟩
      · -- The job of the trip that calls back answers for the job of the next.
        have answers : c.crew.admits (.job j) = true := by simp [Crew.admits, runs.live]
        have first : (Crew.orderly size).run? c.crew [.count (.job j)] = some d.crew :=
          orderlyRun_of_step? answers counted
        refine ⟨[.count (.job j)] ++ [.finish j false], ?_, by simp⟩
        rw [Machine.run?_append, first]
        exact last
  | @left j t crew trip stage leave =>
      exact ⟨[.leave j], orderlyRun_of_step? trivial leave, by simp⟩
  | @discarded j t crew trip discard =>
      exact ⟨[.discard j], orderlyRun_of_step? trivial discard, by simp⟩
  | scripted of => exact ⟨[], rfl, by cases e <;> simp_all [Event.script?]⟩
  | underWay of => exact ⟨[], rfl, by cases e <;> simp_all [Event.trip?]⟩
  | _ => exact ⟨[], rfl, by simp⟩

/-- The run of a client is an orderly run of its crew. -/
theorem crewRun_of_run (size : Nat) (run : (machine threads).run? c es = some d) :
    ∃ cs, (Crew.orderly size).run? c.crew cs = some d.crew ∧
      (.shutdown ∈ cs ↔ .shutdown ∈ es) := by
  refine Machine.run?_induction (motive := fun es d => ∃ cs,
    (Crew.orderly size).run? c.crew cs = some d.crew ∧ (.shutdown ∈ cs ↔ .shutdown ∈ es))
    ⟨[], rfl, by simp⟩ ?_ run
  intro es d d' e _ last ih
  rcases ih with ⟨cs, crewRun, shut⟩
  rcases crewRun_of_step? size last with ⟨cs', crewStep, shut'⟩
  refine ⟨cs ++ cs', ?_, ?_⟩
  · rw [Machine.run?_append, crewRun]
    exact crewStep
  · simp [shut, shut', eq_comm]

/-! ## Nothing is reported behind the end -/

variable {jobs : List Job}

theorem running?_of_atRest (rest : Crew.AtRest jobs c.crew) (j : Nat) : c.running? j = none := by
  simp only [running?, (rest.still j).1]

/-- No trip of a client at rest takes a step, so none reports. -/
theorem reports_of_move (rest : Crew.AtRest jobs c.crew) (move : Move c e c') :
    c'.reports = c.reports := by
  cases move with
  | called runs => exact (rest.idle.not_counted runs.live rfl).elim
  | resubmitted runs => exact (rest.idle.not_counted runs.live rfl).elim
  | _ => rfl

theorem atRest_of_run (rest : Crew.AtRest jobs c.crew)
    (run : (machine threads).run? c fs = some d) :
    Crew.AtRest jobs d.crew ∧ d.reports = c.reports := by
  refine Machine.run?_induction (motive := fun _ d => Crew.AtRest jobs d.crew ∧
    d.reports = c.reports) ⟨rest, rfl⟩ ?_ run
  intro fs d d' e _ last ih
  rcases ih with ⟨still, same⟩
  rcases crewRun_of_step? threads last with ⟨cs, crewRun, -⟩
  exact ⟨still.of_run crewRun, (reports_of_move still (.of_step? last)).trans same⟩

/-- A client whose jobs all came to their end has no request that did not. -/
theorem hasEnded_of_run (run : (machine threads).run? (ofThreads threads) es = some c)
    (ended : ∀ job ∈ c.crew.jobs, job = .done ∨ job = .failed) {j : Nat}
    (known : j < (accepted threads es).length) : c.hasEnded j = true := by
  have within : j < c.crew.jobs.length := by
    rw [(books_of_run run).jobs]
    exact known
  rw [hasEnded, List.getElem?_eq_getElem within, Option.any_some]
  rcases ended _ (List.getElem_mem within) with done | failed
  · rw [done]
    rfl
  · rw [failed]
    rfl

/-- Such a client has one report of every request that it accepted. -/
theorem reported_of_run (run : (machine threads).run? (ofThreads threads) es = some c)
    (ended : ∀ job ∈ c.crew.jobs, job = .done ∨ job = .failed) {j : Nat}
    (known : j < (accepted threads es).length) : c.reports.countP (·.trip == j) = 1 := by
  have books := books_of_run run
  have home := books.hasEnded_iff.1 (hasEnded_of_run run ended known)
  rw [books.reports j, if_pos home]

/-- When a crew that was shut down is gone, and work came only from those who answer for it, every
job that was ever brought came to its end or failed, and none takes a step afterwards.  So a client
that was shut down has reported every accepted request once when it is gone, and it reports nothing
afterwards. -/
theorem shutdown_abandons_nothing :
    (∀ (size : Nat) (es : List Crew.Event) (c : Crew),
      (Crew.orderly size).run? (.ofSize size) es = some c → .shutdown ∈ es →
      c.closing = .closed →
        c.jobs.length = es.countP Crew.Event.bringsJob ∧
        (∀ job ∈ c.jobs, job = .done ∨ job = .failed) ∧
        ∀ (fs : List Crew.Event) (d : Crew), (Crew.orderly size).run? c fs = some d →
          d.jobs = c.jobs ∧
          ∀ j, d.step? (.work j) = none ∧ ∀ failed, d.step? (.finish j failed) = none) ∧
    ∀ (threads : Nat) (es : List Event) (c : Client),
      (machine threads).run? (ofThreads threads) es = some c → .shutdown ∈ es →
      c.crew.closing = .closed →
        (∀ j < (accepted threads es).length, c.reports.countP (·.trip == j) = 1) ∧
        ∀ (fs : List Event) (d : Client), (machine threads).run? c fs = some d →
          d.reports = c.reports ∧ ∀ j, d.running? j = none := by
  refine ⟨?_, ?_⟩
  · intro size es c run shut gone
    rcases Crew.atRest_of_run run shut gone with ⟨rest, ended⟩
    refine ⟨Crew.length_jobs_of_run run, ended, ?_⟩
    intro fs d later
    have still := rest.of_run later
    exact ⟨still.jobs_eq, still.still⟩
  · intro threads es c run shut gone
    -- The crew of a client runs as an orderly crew does, and is shut down with the client.
    rcases crewRun_of_run threads run with ⟨cs, crewRun, shut'⟩
    rcases Crew.atRest_of_run crewRun (shut'.2 shut) gone with ⟨rest, ended⟩
    refine ⟨fun j known => reported_of_run run ended known, ?_⟩
    intro fs d later
    rcases atRest_of_run rest later with ⟨still, same⟩
    exact ⟨same, running?_of_atRest still⟩

/-- A job brings another and panics; a guard is dropped, and the other job ends, only after the
crew was shut down. -/
def handingOnRun : List Crew.Event :=
  [.takeGuard .owner, .count .owner, .enqueue 0, .work 0, .shutdown, .look 0, .count (.job 0),
    .finish 0 true, .leave 0, .count (.guard 0), .dropGuard 0, .enqueue 1, .enqueue 2, .finish 2 false,
    .leave 2, .finish 1 false, .leave 1, .look 0, .join, .joined]

/-- A client is shut down before its request sets out, and the callback submits another. -/
def callingOnRun : List Event :=
  let there : Endpoint := .v4 ⟨127, 0, 0, 1⟩ 7000
  [.submit ⟨7, there, [1], [[2]]⟩, .shutdown, .look 0, .enqueue 0, .noSocket 0 (.bare .other),
    .step 0, .step 0, .step 0, .step 0, .step 0, .step 0, .enqueue 1, .noSocket 1 (.bare .other),
    .step 1, .step 1, .step 1, .step 1, .step 1, .look 0, .join, .joined]

theorem nothing_abandoned_of_callingOnRun :
    (∃ c, (Crew.orderly 1).run? (.ofSize 1) handingOnRun = some c ∧ c.closing = .closed ∧
      c.jobs.length = 3 ∧ ∀ job ∈ c.jobs, job = .done ∨ job = .failed) ∧
    ∃ c, (machine 1).run? (ofThreads 1) callingOnRun = some c ∧ c.crew.closing = .closed ∧
      c.reports.countP (·.trip == 0) = 1 ∧ c.reports.countP (·.trip == 1) = 1 := by
  have brought : Crew.Event.shutdown ∈ handingOnRun := by simp [handingOnRun]
  have called : Event.shutdown ∈ callingOnRun := by simp [callingOnRun]
  obtain ⟨c, run⟩ : ∃ c, (Crew.orderly 1).run? (.ofSize 1) handingOnRun = some c := ⟨_, rfl⟩
  obtain ⟨d, run'⟩ : ∃ d, (machine 1).run? (ofThreads 1) callingOnRun = some d := ⟨_, rfl⟩
  have gone : c.closing = .closed := by
    cases run
    rfl
  have gone' : d.crew.closing = .closed := by
    cases run'
    rfl
  have accepts : (accepted 1 callingOnRun).length = 2 := rfl
  rcases shutdown_abandons_nothing with ⟨onCrew, onClient⟩
  rcases onCrew 1 handingOnRun c run brought gone with ⟨known, ended, -⟩
  rcases onClient 1 callingOnRun d run' called gone' with ⟨reported, -⟩
  rw [accepts] at reported
  exact ⟨⟨c, run, gone, known, ended⟩, d, run', gone', reported 0 (by decide), reported 1 (by decide)⟩

end Client
end LineExchange
