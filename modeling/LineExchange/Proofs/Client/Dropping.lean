import Mathlib.Data.List.Infix
import LineExchange.Proofs.Client.Cancellation
import LineExchange.Proofs.Client.Shutdown

/-!
# Dropping — a client that lets go of everything settles every request

A client that is dropped cancels all that is active, and then shuts its crew down, while its trips
go on.  This file defines:

* `Client.Sweeps` — events that cancel all that is active, at once or name by name.

Behind a shutdown all trips have ended (`jobs_of_run`), so by the books nothing is left of them but
their reports.  A sweep strikes whatever was active when it began (`Sweeps.wasStruck`), and that
reports a failure (`failure_of_struck`).
-/

namespace LineExchange
namespace Client

/-- The events cancel every name that is in use, at once or one by one and in any order.  The trips
go on meanwhile, but the roster is locked: no name is given back, and none comes into use. -/
structure Sweeps (threads : Nat) (c : Client) (es : List Event) : Prop where
  locked : ∀ es' d, es' <+: es → (machine threads).run? c es' = some d →
    d.desk.active = c.desk.active
  all : ∀ id j, c.desk.active.get? id = some j → ∃ e ∈ es, e.Names id

variable {c c₁ : Client} {e : Event} {threads : Nat} {es es₁ es₂ sweep : List Event} {j : Nat}
  {id : UInt32} {t : Trip}

/-! ## Trips that are home -/

/-- The jobs of a client that was shut down and is gone came to their end. -/
theorem jobs_of_run (run : (machine threads).run? (ofThreads threads) es = some c)
    (shut : .shutdown ∈ es) (gone : c.crew.closing = .closed) :
    ∀ job ∈ c.crew.jobs, job = .done ∨ job = .failed := by
  rcases crewRun_of_run threads run with ⟨cs, crewRun, shut'⟩
  exact (Crew.atRest_of_run crewRun (shut'.2 shut) gone).2

/-- A trip that ended gave back its name. -/
theorem retired_of_hasEnded {a : List Submission} {m : Nat → List Trip.Mark} (books : Books a m c)
    (ended : c.hasEnded j = true) : .retired ∈ m j := by
  rcases Option.map_eq_some_iff.1 (books.hasEnded_iff.1 ended) with ⟨t, trip, home⟩
  exact books.retired trip (by rw [home]; rfl)

theorem entries_of_hasEnded {a : List Submission} {m : Nat → List Trip.Mark} (books : Books a m c)
    (ended : ∀ j < a.length, c.hasEnded j = true) : c.desk.active.entries = [] := by
  refine List.eq_nil_iff_forall_not_mem.2 ?_
  rintro ⟨id, j⟩ mem
  rcases (books.active id j).1 (Roster.get?_eq_some_iff.2 mem) with ⟨⟨s, hget, -⟩, active⟩
  have known : j < a.length := (List.getElem?_eq_some_iff.1 hget).1
  exact active (retired_of_hasEnded books (ended j known))

theorem socketOpen_of_hasEnded {a : List Submission} {m : Nat → List Trip.Mark}
    (books : Books a m c) (ended : ∀ j < a.length, c.hasEnded j = true) (mem : t ∈ c.trips) :
    t.socketOpen = false := by
  rcases List.getElem?_of_mem mem with ⟨j, trip⟩
  have retired := retired_of_hasEnded books (ended j (books.lt_of_trip trip))
  exact (books.shows j t trip).socketOpen_of_retired retired

/-! ## Sweeps -/

/-- The cancellation of everything at once. -/
theorem sweeps_cancelAll (threads : Nat) (c : Client) : Sweeps threads c [.cancelAll] where
  locked := by
    intro es' d within path
    rcases List.prefix_cons_iff.1 within with rfl | ⟨rest, rfl, behind⟩
    · cases path
      rfl
    · obtain rfl := List.prefix_nil.1 behind
      cases path
      exact Desk.active_cancelAll c.desk
  all _ _ _ := ⟨.cancelAll, List.mem_singleton_self _, trivial⟩

theorem mem_struck_of_names (names : e.Names id) (active : c.desk.active.get? id = some j) :
    j ∈ c.struck e := by
  cases e with
  | cancel other =>
      obtain rfl : other = id := names
      exact Option.mem_toList.2 active
  | cancelAll => exact Roster.mem_occupants_iff.2 ⟨id, active⟩
  | _ => exact names.elim

/-- A sweep strikes all that was active when it began. -/
theorem Sweeps.wasStruck (sweeps : Sweeps threads c₁ sweep)
    (before : (machine threads).run? (ofThreads threads) es₁ = some c₁)
    (run : (machine threads).run? (ofThreads threads) (es₁ ++ sweep ++ es₂) = some c)
    (active : c₁.desk.active.get? id = some j) : WasStruck threads (es₁ ++ sweep ++ es₂) j := by
  rcases sweeps.all id j active with ⟨e, mem, names⟩
  rcases List.append_of_mem mem with ⟨first, rest, rfl⟩
  have split : es₁ ++ (first ++ e :: rest) ++ es₂ = es₁ ++ first ++ e :: (rest ++ es₂) := by simp
  rw [split, Machine.run?_append, Option.bind_eq_some_iff] at run
  rcases run with ⟨d, path, -⟩
  -- The name is in use when its turn comes.
  have locked : d.desk.active = c₁.desk.active := by
    refine sweeps.locked first d (List.prefix_append _ _) ?_
    rwa [Machine.run?_append, before] at path
  exact ⟨es₁ ++ first, e, rest ++ es₂, d, split, path,
    mem_struck_of_names names (locked ▸ active)⟩

/-- A trip that was struck and has reported once has reported a failure. -/
theorem failure_of_struck (run : (machine threads).run? (ofThreads threads) es = some c)
    (struck : WasStruck threads es j)
    (once : j < (accepted threads es).length → c.reports.countP (·.trip == j) = 1) :
    ∃ r e, c.reports.filter (·.trip == j) = [r] ∧ r.outcome = .failed e ∧
      (e = .cancelled ∨ CameTo threads es j (.failed e)) := by
  have chronicle := chronicle_of_run run
  have known : j < (accepted threads es).length := by
    rw [← (books_of_run run).trips]
    exact Nat.lt_of_not_le fun unborn => (chronicle.unborn j unborn).1 struck
  have single := once known
  rw [List.countP_eq_length_filter, List.length_eq_one_iff] at single
  rcases single with ⟨r, only⟩
  have own : r ∈ c.reports.filter (·.trip == j) := by rw [only]; exact List.mem_singleton_self r
  rw [List.mem_filter, beq_iff_eq] at own
  rcases own with ⟨mem, rfl⟩
  rcases (chronicle.reports r mem).of_struck struck with ⟨-, ⟨cancelled, -⟩ | ⟨e, failed, -, came⟩⟩
  · exact ⟨r, .cancelled, only, cancelled, .inl rfl⟩
  · exact ⟨r, e, only, failed, .inr came⟩

/-- When a client is dropped, it cancels all that is active and then shuts its crew down, while the
trips go on in any way.  When it is gone, every request that was ever accepted has reported once; no
name is in use, and no socket is open; and what was active when the cancellation began has reported
that it was cancelled, or else the failure that ended it, and no response. -/
theorem dropped_client_settles_every_request
    (before : (machine threads).run? (ofThreads threads) es₁ = some c₁)
    (sweeps : Sweeps threads c₁ sweep)
    (run : (machine threads).run? (ofThreads threads) (es₁ ++ sweep ++ es₂) = some c)
    (shut : .shutdown ∈ es₂) (gone : c.crew.closing = .closed) :
    (∀ j < (accepted threads (es₁ ++ sweep ++ es₂)).length,
      c.reports.countP (·.trip == j) = 1) ∧
    c.desk.active.entries = [] ∧ (∀ t ∈ c.trips, t.socketOpen = false) ∧
    ∀ id j, c₁.desk.active.get? id = some j →
      ∃ r e, c.reports.filter (·.trip == j) = [r] ∧ r.outcome = .failed e ∧
        (e = .cancelled ∨ CameTo threads (es₁ ++ sweep ++ es₂) j (.failed e)) := by
  have books := books_of_run run
  -- A crew that was shut down and is gone has no job left, so every trip is home.
  have jobs := jobs_of_run run (List.mem_append_right _ shut) gone
  have ended : ∀ j < _, c.hasEnded j = true := fun j known => hasEnded_of_run run jobs known
  refine ⟨fun j known => reported_of_run run jobs known, entries_of_hasEnded books ended,
    fun t mem => socketOpen_of_hasEnded books ended mem, ?_⟩
  intro id j active
  exact failure_of_struck run (sweeps.wasStruck before run active)
    fun known => reported_of_run run jobs known

def refusedSteps (j : Nat) : List Event :=
  .enqueue j :: .connect j (some (.error (.bare .connectionRefused))) :: List.replicate 5 (.step j)

/-- Four requests: one is refused, one gave back its name with its response, one has read its
response, and one was not even enqueued. -/
def busyRun : List Event :=
  let there : Endpoint := .v4 ⟨127, 0, 0, 1⟩ 7000
  let wire : Wire := { Wire.blank with arrivals := [.piece [111, 107, 10]] }
  [.submit ⟨1, there, [1], []⟩, .submit ⟨2, there, [1], []⟩, .submit ⟨3, there, [1], []⟩,
    .submit ⟨4, there, [1], []⟩] ++ refusedSteps 0 ++
    [.enqueue 1, .connect 1 (some (.ok wire))] ++ List.replicate 9 (.step 1) ++
    [.enqueue 2, .connect 2 (some (.ok wire))] ++ List.replicate 7 (.step 2)

/-- What is active is cancelled name by name, and one trip closes its socket meanwhile. -/
def slowSweep : List Event :=
  [.cancel 4, .step 2, .cancel 3]

def goingHome : List Event :=
  [.shutdown] ++ List.replicate 3 (.step 1) ++ [.look 0] ++ List.replicate 4 (.step 2) ++
    refusedSteps 3 ++ [.look 0, .join, .joined]

theorem settled_of_busyRun :
    ∃ c₁ c, (machine 1).run? (ofThreads 1) busyRun = some c₁ ∧ Sweeps 1 c₁ slowSweep ∧
      (machine 1).run? (ofThreads 1) (busyRun ++ slowSweep ++ goingHome) = some c ∧
      c.crew.closing = .closed ∧ (∀ j < 4, c.reports.countP (·.trip == j) = 1) ∧
      c.desk.active.entries = [] ∧
      ∃ r e, c.reports.filter (·.trip == 2) = [r] ∧ r.outcome = .failed e := by
  obtain ⟨c₁, before⟩ : ∃ c, (machine 1).run? (ofThreads 1) busyRun = some c := ⟨_, rfl⟩
  obtain ⟨c, run⟩ : ∃ c, (machine 1).run? (ofThreads 1) (busyRun ++ slowSweep ++ goingHome) =
      some c := ⟨_, rfl⟩
  have inUse : c₁.desk.active.entries = [(4, 3), (3, 2)] := by
    cases before
    rfl
  have sweeps : Sweeps 1 c₁ slowSweep := by
    refine ⟨?_, ?_⟩
    · -- The sweep is short, so each of its beginnings can be run.
      have same : ∀ es' ∈ slowSweep.inits, ∀ d ∈ (machine 1).run? c₁ es',
          d.desk.active = c₁.desk.active := by
        cases before
        decide
      exact fun es' d within => same es' ((List.mem_inits _ _).2 within) d
    · intro id j active
      have mem := Roster.get?_eq_some_iff.1 active
      rw [inUse] at mem
      simp only [List.mem_cons, Prod.mk.injEq, List.not_mem_nil, or_false] at mem
      rcases mem with ⟨rfl, -⟩ | ⟨rfl, -⟩
      · exact ⟨.cancel 4, by simp [slowSweep], rfl⟩
      · exact ⟨.cancel 3, by simp [slowSweep], rfl⟩
  have shut : Event.shutdown ∈ goingHome := by simp [goingHome]
  have gone : c.crew.closing = .closed := by
    cases run
    rfl
  have active : c₁.desk.active.get? 3 = some 2 := by
    rw [Roster.get?_eq_some_iff, inUse]
    decide
  have accepts : (accepted 1 (busyRun ++ slowSweep ++ goingHome)).length = 4 := rfl
  rcases dropped_client_settles_every_request before sweeps run shut gone with
    ⟨reported, unused, -, failures⟩
  rw [accepts] at reported
  rcases failures 3 2 active with ⟨r, e, only, failed, -⟩
  exact ⟨c₁, c, before, sweeps, run, gone, reported, unused, r, e, only, failed⟩

end Client
end LineExchange
