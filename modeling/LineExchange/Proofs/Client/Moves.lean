import LineExchange.Client.Client
import LineExchange.Proofs.Client.Ending
import LineExchange.Proofs.Work.Jobs

/-!
# Moves — what the events of a client do

This file says once, for each event of a client, everything that it may do.  It defines:

* `Client.Runs` — trip `j` with its ticket, when its job may take steps;
* `Client.enroll`, `Client.calledBack` — a client with one more request, and with one more report;
* `Client.Move` — what an event may do, one constructor for each kind of step.

`Move.of_step?` proves that an event does nothing else; facts about the runs of a client are then
proved by cases on the move.
-/

namespace LineExchange
namespace Client

/-- Trip `j` goes with ticket `k`, and its job is on the loop. -/
structure Runs (c : Client) (j : Nat) (t : Trip) (k : Ticket) : Prop where
  trip : c.trips[j]? = some t
  ticket : c.desk.tickets[j]? = some k
  live : c.crew.jobs[j]? = some .live

def enroll (s : Submission) (r : Roster) (c : Client) : Client :=
  { c with
    desk := { c.desk.issue (.issue s.id s.endpoint s.payload) with active := r }
    trips := c.trips ++ [.start]
    again := c.again ++ [s.again]
    crew := { c.crew with count := c.crew.count.acquire, jobs := c.crew.jobs ++ [.counted] } }

theorem submit_of_insert? {s : Submission} {r : Roster} {c : Client}
    (free : c.desk.active.insert? s.id c.trips.length = some r) :
    c.submit s = (c.enroll s r, true) := by
  simp only [submit, free, enroll]

theorem submit_of_taken {s : Submission} {c : Client}
    (taken : c.desk.active.insert? s.id c.trips.length = none) : c.submit s = (c, false) := by
  simp only [submit, taken]

def calledBack (c : Client) (j : Nat) (t : Trip) (entry : Report) (crew : Crew) : Client :=
  { c.setTrip j (t.standing .home) with reports := c.reports ++ [entry], crew }

/-- The trip that an event moves while it is under way, and how. -/
def Event.trip? : Event → Option (Nat × Trip.Move)
  | .noSocket j e => some (j, .refuse e)
  | .connect j result => some (j, .connect result)
  | .step j => some (j, .step)
  | _ => none

def Event.crew? : Event → Option Crew.Event
  | .enqueue j => some (.enqueue j)
  | .shutdown => some .shutdown
  | .stop => some .stop
  | .look i => some (.look i)
  | .wake i => some (.wake i)
  | .join => some .join
  | .joined => some .joined
  | _ => none

def Event.script? : Event → Option (Nat × (Wire → Wire))
  | .arrive j a => some (j, .expect a)
  | .allow j u => some (j, .allow u)
  | .failFlush j e => some (j, .failFlush e)
  | _ => none

inductive Move (c : Client) : Event → Client → Prop where
  | admitted {s : Submission} {r : Roster}
      (free : c.desk.active.insert? s.id c.trips.length = some r) : Move c (.submit s) (c.enroll s r)
  | turnedAway {s : Submission} (taken : c.desk.active.insert? s.id c.trips.length = none) :
      Move c (.submit s) c
  /-- A trip that is under way moves. -/
  | underWay {e : Event} {j : Nat} {mv : Trip.Move} {t t' : Trip} {k : Ticket}
      (of : e.trip? = some (j, mv)) (runs : Runs c j t k) (moved : t.move? k mv = some t') :
      Move c e (c.setTrip j t')
  | closed {j : Nat} {t : Trip} {k : Ticket} {E : Ending} (runs : Runs c j t k)
      (stage : t.stage = .closing E) :
      Move c (.step j) (c.setTrip j { t with stage := .retiring E, socketOpen := false })
  | retired {j : Nat} {t : Trip} {k : Ticket} {E : Ending} (runs : Runs c j t k)
      (stage : t.stage = .retiring E) :
      Move c (.step j)
        ({ c with desk := (c.desk.retire k.id).1 }.setTrip j (t.standing (.judging E)))
  | judged {j : Nat} {t : Trip} {k : Ticket} {E : Ending} (runs : Runs c j t k)
      (stage : t.stage = .judging E) :
      Move c (.step j) (c.setTrip j (t.standing (.reporting (E.outcome k.cancelled))))
  /-- A callback begins that submits again. -/
  | calling {j : Nat} {t : Trip} {k : Ticket} {o : Outcome} {payload : Bytes} {later : List Bytes}
      (runs : Runs c j t k) (stage : t.stage = .reporting o)
      (again : c.again[j]? = some (payload :: later)) :
      Move c (.step j)
        (c.setTrip j (t.standing (.resubmitting o (c.isActive k.id) payload later)))
  /-- A callback that does not submit again begins and is over. -/
  | called {j : Nat} {t : Trip} {k : Ticket} {o : Outcome} {crew : Crew} (runs : Runs c j t k)
      (stage : t.stage = .reporting o)
      (last : ∀ payload later, c.again[j]? ≠ some (payload :: later))
      (finish : c.crew.step? (.finish j false) = some crew) :
      Move c (.step j) (c.calledBack j t ⟨j, k.id, o, none⟩ crew)
  /-- A callback submits again and is over. -/
  | resubmitted {j : Nat} {t : Trip} {k : Ticket} {o : Outcome} {inUse accepted : Bool}
      {payload : Bytes} {later : List Bytes} {c' : Client} {crew : Crew} (runs : Runs c j t k)
      (stage : t.stage = .resubmitting o inUse payload later)
      (submitted : c.submit ⟨k.id, k.endpoint, payload, later⟩ = (c', accepted))
      (finish : c'.crew.step? (.finish j false) = some crew) :
      Move c (.step j) (c'.calledBack j t ⟨j, k.id, o, some ⟨inUse, accepted⟩⟩ crew)
  /-- The job of a trip that is home is counted no more. -/
  | left {j : Nat} {t : Trip} {crew : Crew} (trip : c.trips[j]? = some t) (stage : t.stage = .home)
      (leave : c.crew.step? (.leave j) = some crew) : Move c (.step j) { c with crew }
  | scripted {e : Event} {j : Nat} {f : Wire → Wire} {t : Trip} (of : e.script? = some (j, f))
      (trip : c.trips[j]? = some t) : Move c e (c.setTrip j (t.onWire f))
  | cancelled {id : UInt32} : Move c (.cancel id) { c with desk := (c.desk.cancel id).1 }
  | cancelledAll : Move c .cancelAll { c with desk := c.desk.cancelAll }
  | onCrew {e : Event} {e' : Crew.Event} {crew : Crew} (of : e.crew? = some e')
      (step : c.crew.step? e' = some crew) : Move c e { c with crew }
  | discarded {j : Nat} {t : Trip} {crew : Crew} (trip : c.trips[j]? = some t)
      (discard : c.crew.step? (.discard j) = some crew) :
      Move c (.discard j)
        ({ c with crew }.setTrip j { t with stage := .dropped, socketOpen := false })

/-! ## There is no other move -/

theorem runs_of_running? {c : Client} {j : Nat} {t : Trip} {k : Ticket}
    (running : c.running? j = some t) (ticket : c.desk.tickets[j]? = some k) : Runs c j t k := by
  unfold running? at running
  split at running
  · rename_i crew work
    exact ⟨running, ticket, Crew.live_of_work work⟩
  · cases running

theorem Move.of_onCrew {c c' : Client} {e : Event} {e' : Crew.Event} (of : e.crew? = some e')
    (h : c.onCrew e' = some c') : Move c e c' := by
  rcases Option.map_eq_some_iff.1 h with ⟨crew, step, rfl⟩
  exact .onCrew of step

theorem Move.of_tripStep {c c' : Client} {j : Nat} {t : Trip} {k : Ticket} (runs : Runs c j t k)
    (h : c.tripStep j k t = some c') : Move c (.step j) c' := by
  unfold tripStep at h
  split at h
  · rename_i E hstage
    rcases Option.map_eq_some_iff.1 h with ⟨t', moved, rfl⟩
    simp only [Trip.close, hstage, Option.some.injEq] at moved
    subst moved
    exact .closed runs hstage
  · rename_i E hstage
    cases h
    exact .retired runs hstage
  · rename_i E hstage
    cases h
    exact .judged runs hstage
  · rename_i o hstage
    split at h
    · rename_i payload later again
      cases h
      exact .calling runs hstage again
    · rename_i last
      rcases Option.map_eq_some_iff.1 h with ⟨crew, finish, rfl⟩
      exact .called runs hstage last finish
  · rename_i o inUse payload later hstage
    rcases Option.map_eq_some_iff.1 h with ⟨crew, finish, rfl⟩
    exact .resubmitted runs hstage rfl finish
  · rcases Option.map_eq_some_iff.1 h with ⟨t', moved, rfl⟩
    have of : (Event.step j).trip? = some (j, .step) := rfl
    exact .underWay of runs moved

/-- An event does nothing but what `Move` says. -/
theorem Move.of_step? {c c' : Client} {e : Event} (h : c.step? e = some c') : Move c e c' := by
  cases e with
  | submit s =>
      simp only [step?] at h
      split at h
      · cases free : c.desk.active.insert? s.id c.trips.length with
        | none =>
            rw [submit_of_taken free] at h
            cases h
            exact .turnedAway free
        | some r =>
            rw [submit_of_insert? free] at h
            cases h
            exact .admitted free
      · cases h
  | enqueue j => exact .of_onCrew rfl h
  | noSocket j err =>
      simp only [step?] at h
      split at h
      · rename_i t k running ticket
        rcases Option.map_eq_some_iff.1 h with ⟨t', moved, rfl⟩
        have of : (Event.noSocket j err).trip? = some (j, .refuse err) := rfl
        exact .underWay of (runs_of_running? running ticket) moved
      · cases h
  | connect j result =>
      simp only [step?] at h
      split at h
      · rename_i t k running ticket
        rcases Option.map_eq_some_iff.1 h with ⟨t', moved, rfl⟩
        have of : (Event.connect j result).trip? = some (j, .connect result) := rfl
        exact .underWay of (runs_of_running? running ticket) moved
      · cases h
  | step j =>
      simp only [step?] at h
      split at h
      · -- A trip at home only leaves its thread; any other one goes on.
        rename_i trip
        rcases Option.map_eq_some_iff.1 h with ⟨crew, leave, rfl⟩
        exact .left trip rfl leave
      · split at h
        · rename_i t k running ticket
          exact .of_tripStep (runs_of_running? running ticket) h
        · cases h
  | arrive j a =>
      rcases Option.map_eq_some_iff.1 h with ⟨t, trip, rfl⟩
      exact .scripted (f := .expect a) rfl trip
  | allow j u =>
      rcases Option.map_eq_some_iff.1 h with ⟨t, trip, rfl⟩
      exact .scripted (f := .allow u) rfl trip
  | failFlush j err =>
      rcases Option.map_eq_some_iff.1 h with ⟨t, trip, rfl⟩
      exact .scripted (f := .failFlush err) rfl trip
  | cancel id =>
      cases h
      exact .cancelled
  | cancelAll =>
      cases h
      exact .cancelledAll
  | shutdown => exact .of_onCrew rfl h
  | stop => exact .of_onCrew rfl h
  | look i => exact .of_onCrew rfl h
  | wake i => exact .of_onCrew rfl h
  | join => exact .of_onCrew rfl h
  | discard j =>
      simp only [step?] at h
      split at h
      · rename_i t trip
        rcases Option.map_eq_some_iff.1 h with ⟨d, step, rfl⟩
        rcases Option.map_eq_some_iff.1 step with ⟨crew, discard, rfl⟩
        exact .discarded trip discard
      · cases h
  | joined => exact .of_onCrew rfl h

/-! ## The trips behind a move -/

section Trips

variable {c : Client} {i j : Nat} {t t' : Trip} {s : Submission}

theorem trip_of_setTrip (trip' : (c.setTrip i t).trips[j]? = some t') :
    i = j ∧ t' = t ∨ i ≠ j ∧ c.trips[j]? = some t' := by
  simp only [setTrip, List.getElem?_set] at trip'
  split at trip'
  · rename_i same
    split at trip' <;> cases trip'
    exact .inl ⟨same, rfl⟩
  · rename_i other
    exact .inr ⟨other, trip'⟩

theorem trip_of_enroll {r : Roster} (trip' : (c.enroll s r).trips[j]? = some t') :
    c.trips[j]? = some t' ∨ c.trips.length ≤ j ∧ t' = .start := by
  simp only [enroll, List.getElem?_append, List.getElem?_singleton] at trip'
  split at trip'
  · exact .inl trip'
  · rename_i beyond
    split at trip' <;> cases trip'
    exact .inr ⟨Nat.le_of_not_lt beyond, rfl⟩

theorem trip_of_submit (trip' : (c.submit s).1.trips[j]? = some t') :
    c.trips[j]? = some t' ∨ c.trips.length ≤ j ∧ t' = .start := by
  cases free : c.desk.active.insert? s.id c.trips.length with
  | none =>
      rw [submit_of_taken free] at trip'
      exact .inl trip'
  | some r =>
      rw [submit_of_insert? free] at trip'
      exact trip_of_enroll trip'

end Trips

/-- A submission makes no report. -/
theorem reports_submit (s : Submission) (c : Client) : (c.submit s).1.reports = c.reports := by
  simp only [submit]
  split <;> rfl

/-- A report that was made stays. -/
theorem Move.reports_isPrefix {c c' : Client} {e : Event} (move : Move c e c') :
    c.reports <+: c'.reports := by
  cases move with
  | called => exact List.prefix_append _ _
  | resubmitted _ _ submitted =>
      have same := congrArg (·.1.reports) submitted
      simp only [reports_submit] at same
      exact same ▸ List.prefix_append _ _
  | _ => exact List.prefix_rfl

end Client
end LineExchange
