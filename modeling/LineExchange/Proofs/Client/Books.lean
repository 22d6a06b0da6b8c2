import LineExchange.Proofs.Client.Marks
import LineExchange.Proofs.History

/-!
# Books — which requests are active, and how often each reports

A client keeps a roster of the names in use, and every trip gives back its name before it calls
back.  This file defines how the state of a client agrees with what was seen of it:

* `Client.Roll` — the roster and the stages of the trips;
* `Client.Homecomings` — the jobs that ended and the reports;
* `Client.Books` — both;
* `Client.accepted`, `Client.marks` — what is seen of a whole run.

The invariant `Books` is kept by every move (`Books.of_move`), so it holds after every run
(`books_of_run`).  It says that the roster holds exactly the accepted requests that have not given
back their names, that each trip has done its part of one of two itineraries, and that the trips
that ended are those with a report, one each.
-/

namespace LineExchange

def Ticket.content (k : Ticket) : UInt32 × Endpoint × Bytes :=
  (k.id, k.endpoint, k.payload)

def Submission.content (s : Submission) : UInt32 × Endpoint × Bytes :=
  (s.id, s.endpoint, s.payload)

namespace Desk

/-! ## Cancelling changes no ticket's content -/

theorem contents_cancelTicket (k : Nat) (d : Desk) :
    (d.cancelTicket k).tickets.map Ticket.content = d.tickets.map Ticket.content := by
  apply List.ext_getElem?
  intro i
  simp only [List.getElem?_map, getElem?_cancelTicket]
  split
  · cases d.tickets[i]? <;> rfl
  · rfl

theorem contents_foldl_cancelTicket (ks : List Nat) (d : Desk) :
    (ks.foldl (fun d k => d.cancelTicket k) d).tickets.map Ticket.content =
      d.tickets.map Ticket.content := by
  induction ks generalizing d with
  | nil => rfl
  | cons k ks ih => exact (ih (d.cancelTicket k)).trans (contents_cancelTicket k d)

end Desk

namespace Client

/-- The desk and the trips agree with the submissions that were accepted and with what was seen. -/
structure Roll (accepted : List Submission) (marks : Nat → List Trip.Mark) (c : Client) :
    Prop where
  tickets : c.desk.tickets.map Ticket.content = accepted.map Submission.content
  trips : c.trips.length = accepted.length
  /-- Nothing was seen of trips that did not set out. -/
  unborn : ∀ j, accepted.length ≤ j → marks j = []
  /-- Active are the accepted requests that did not give back their names. -/
  active : ∀ (id : UInt32) (j : Nat), c.desk.active.get? id = some j ↔
    (∃ s, accepted[j]? = some s ∧ s.id = id) ∧ .retired ∉ marks j
  shows : ∀ (j : Nat) (t : Trip), c.trips[j]? = some t → t.Shows (marks j)

/-- The jobs that ended are those of the trips that are home, and these have one report each. -/
structure Homecomings (accepted : List Submission) (c : Client) : Prop where
  jobs : c.crew.jobs.length = accepted.length
  ended : ∀ (j : Nat) (t : Trip) (b : Job), c.trips[j]? = some t → c.crew.jobs[j]? = some b →
    (b.hasEnded = true ↔ t.stage = .home)
  reports : ∀ j : Nat, c.reports.countP (·.trip == j) =
    if c.trips[j]?.map Trip.stage = some .home then 1 else 0
  names : ∀ r ∈ c.reports, ∃ s, accepted[r.trip]? = some s ∧ s.id = r.id

/-- The state agrees with the submissions that were accepted and with what was seen of the trips. -/
structure Books (accepted : List Submission) (marks : Nat → List Trip.Mark) (c : Client) :
    Prop extends Roll accepted marks c, Homecomings accepted c

variable {a : List Submission} {m m' : Nat → List Trip.Mark} {c c' : Client} {e : Event} {j : Nat}
  {mv : Trip.Move} {t t' : Trip} {k : Ticket}

/-! ## The roll -/

namespace Roll

theorem submission_of_ticket (hr : Roll a m c) (ticket : c.desk.tickets[j]? = some k) :
    ∃ s, a[j]? = some s ∧ s.id = k.id := by
  have same := congrArg (fun l => l[j]?) hr.tickets
  simp only [List.getElem?_map, ticket, Option.map_some] at same
  rcases Option.map_eq_some_iff.1 same.symm with ⟨s, hget, content⟩
  exact ⟨s, hget, congrArg Prod.fst content⟩

theorem lt_of_trip (hr : Roll a m c) (trip : c.trips[j]? = some t) : j < a.length := by
  rw [← hr.trips]
  exact (List.getElem?_eq_some_iff.1 trip).1

/-- The stage of a trip allows what was seen of it. -/
theorem allows {s : Trip.Stage} (hr : Roll a m c) (trip : c.trips[j]? = some t)
    (stage : t.stage = s) : s.Allows (m j) := by
  rw [← stage]
  exact (hr.shows j t trip).stage

/-- A trip goes on, as what was seen of it shows. -/
theorem set (hr : Roll a m c) (tickets : c'.desk.tickets = c.desk.tickets)
    (trips : c'.trips = c.trips.set j t') (trip : c.trips[j]? = some t)
    (active : ∀ (id : UInt32) (i : Nat), c'.desk.active.get? id = some i ↔
      (∃ s, a[i]? = some s ∧ s.id = id) ∧ .retired ∉ m' i)
    (others : ∀ i, i ≠ j → m' i = m i) (shows : t'.Shows (m' j)) : Roll a m' c' where
  tickets := by rw [tickets, hr.tickets]
  trips := by rw [trips, List.length_set, hr.trips]
  unborn i le := by
    have ne : i ≠ j := by
      rintro rfl
      exact absurd (hr.lt_of_trip trip) (Nat.not_lt.2 le)
    rw [others i ne]
    exact hr.unborn i le
  active := active
  shows i u hget := by
    rw [trips, List.getElem?_set] at hget
    split at hget
    · rename_i same
      subst same
      split at hget
      · cases hget
        exact shows
      · cases hget
    · rename_i ne
      rw [others i (Ne.symm ne)]
      exact hr.shows i u hget

/-- A trip that goes on without giving back its name leaves the roster as it is. -/
theorem set_of_desk (hr : Roll a m c) (desk : c'.desk = c.desk)
    (trips : c'.trips = c.trips.set j t') (trip : c.trips[j]? = some t)
    (others : ∀ i, i ≠ j → m' i = m i) (shows : t'.Shows (m' j))
    (retired : .retired ∈ m' j ↔ .retired ∈ m j) : Roll a m' c' := by
  refine hr.set (by rw [desk]) trips trip ?_ others shows
  intro id i
  rw [desk, hr.active]
  by_cases same : i = j
  · subst same
    rw [retired]
  · rw [others i same]

/-- A trip that gives back its name gives back its own. -/
theorem get?_of_retiring {E : Ending} (hr : Roll a m c) (trip : c.trips[j]? = some t)
    (ticket : c.desk.tickets[j]? = some k) (stage : t.stage = .retiring E) :
    c.desk.active.get? k.id = some j := by
  have allows := hr.allows trip stage
  -- It has not given it back yet, so the roster still has it under that name.
  have notYet : .retired ∉ m j := by
    rcases allows with hnil | closed
    · simp [hnil]
    · simp [closed]
  rcases hr.submission_of_ticket ticket with ⟨s, hget, name⟩
  exact (hr.active _ _).2 ⟨⟨s, hget, name⟩, notYet⟩

/-- A trip gives back its name. -/
theorem retire {E : Ending} (hr : Roll a m c) (runs : Runs c j t k) (stage : t.stage = .retiring E)
    (others : ∀ i, i ≠ j → m' i = m i) (last : m' j = m j ++ [.retired]) :
    Roll a m' ({ c with desk := (c.desk.retire k.id).1 }.setTrip j (t.standing (.judging E))) := by
  have own := hr.get?_of_retiring runs.trip runs.ticket stage
  rcases hr.submission_of_ticket runs.ticket with ⟨s, hget, name⟩
  refine hr.set (by rfl) (by rfl) runs.trip ?_ others ?_
  · intro id i
    simp only [Client.setTrip, Desk.retire, Roster.get?_erase]
    have before := hr.active id i
    by_cases trip : i = j
    · -- The name of the trip itself has no occupant any more, whoever had it before.
      subst trip
      have gone : .retired ∈ m' i := by simp [last]
      simp only [gone, not_true, and_false, iff_false]
      split
      · simp
      · rename_i ne
        rw [before, hget]
        rintro ⟨⟨s', here, name'⟩, -⟩
        cases here
        exact ne (name'.symm.trans name)
    · rw [others i trip, ← before]
      split
      · rename_i same
        subst same
        rw [own]
        simp [Ne.symm trip]
      · rfl
  · have shows := hr.shows j t runs.trip
    rw [last]
    rcases hr.allows runs.trip stage with hnil | closed
    · rw [hnil] at shows ⊢
      exact shows.standing (by simp) (.inl rfl) (by simp) (by simp)
    · rw [closed] at shows ⊢
      exact shows.standing (by simp) (.inr rfl) (by simp) (by simp)

/-- A request is accepted under a name that is free. -/
theorem enroll {s : Submission} {r : Roster} (hr : Roll a m c)
    (free : c.desk.active.insert? s.id c.trips.length = some r) :
    Roll (a ++ [s]) m (c.enroll s r) where
  tickets := by
    simp [Client.enroll, Desk.issue, hr.tickets, Ticket.issue, Ticket.content, Submission.content]
  trips := by simp [Client.enroll, hr.trips]
  unborn i le := by
    refine hr.unborn i (Nat.le_trans ?_ le)
    simp
  active id i := by
    have unused : c.desk.active.get? s.id = none := by
      rw [← Roster.insert?_isSome_iff (k := c.trips.length), free]
      rfl
    rw [show (c.enroll s r).desk.active = r from rfl, Roster.get?_of_insert? free, hr.trips]
    have older := hr.active id i
    by_cases last : i = a.length
    · -- The new trip: nothing was seen of it, and the roster did not know it before.
      subst last
      rw [List.getElem?_eq_none (Nat.le_refl _)] at older
      simp only [reduceCtorEq, false_and, exists_false, iff_false] at older
      have unseen := hr.unborn a.length (Nat.le_refl _)
      by_cases same : id = s.id
      · simp [same, unseen]
      · simp [same, older, Ne.symm same]
    · have before : (a ++ [s])[i]? = a[i]? := by
        rcases Nat.lt_or_gt_of_ne last with lt | gt
        · exact List.getElem?_append_left lt
        · rw [List.getElem?_eq_none (by simp; omega), List.getElem?_eq_none (by omega)]
      rw [before]
      by_cases same : id = s.id
      · subst same
        rw [← older, unused]
        simp [Ne.symm last]
      · rw [if_neg same, older]
  shows i u trip := by
    rcases trip_of_enroll trip with old | ⟨beyond, rfl⟩
    · exact hr.shows i u old
    · rw [hr.unborn i (hr.trips ▸ beyond)]
      exact .start

end Roll

/-! ## The trips that are home -/

namespace Homecomings

/-- A trip that goes on and does not come home changes nothing here. -/
theorem set (hh : Homecomings a c) (trips : c'.trips = c.trips.set j t')
    (crew : c'.crew = c.crew) (reports : c'.reports = c.reports) (trip : c.trips[j]? = some t)
    (home : t'.stage = .home ↔ t.stage = .home) : Homecomings a c' where
  jobs := by rw [crew, hh.jobs]
  ended i u b hget job := by
    rw [trips, List.getElem?_set] at hget
    rw [crew] at job
    split at hget
    · rename_i same
      subst same
      split at hget
      · cases hget
        rw [home]
        exact hh.ended _ t b trip job
      · cases hget
    · exact hh.ended i u b hget job
  reports i := by
    have unchanged : c'.trips[i]?.map Trip.stage = some .home ↔
        c.trips[i]?.map Trip.stage = some .home := by
      rw [trips, List.getElem?_set]
      split
      · rename_i same
        subst same
        rcases List.getElem?_eq_some_iff.1 trip with ⟨lt, get⟩
        simp [lt, get, home]
      · rfl
    rw [reports, hh.reports i]
    simp only [unchanged]
  names := by
    rw [reports]
    exact hh.names

/-- What the crew does without a job's last step changes nothing here. -/
theorem onCrew {e' : Crew.Event} {crew : Crew} (hh : Homecomings a c)
    (step : c.crew.step? e' = some crew) (noCount : ∀ o, e' ≠ .count o)
    (noFinish : ∀ i failed, e' ≠ .finish i failed) : Homecomings a { c with crew } := by
  rcases (Crew.jobMove_of_step? step).hasEnded noCount noFinish with ⟨size, ended⟩
  refine ⟨size.trans hh.jobs, ?_, hh.reports, hh.names⟩
  intro i u b' hget job
  rcases ended i b' job with ⟨b, before, same⟩
  rw [same]
  exact hh.ended i u b hget before

theorem enroll {s : Submission} {r : Roster} (hh : Homecomings a c)
    (trips : c.trips.length = a.length) : Homecomings (a ++ [s]) (c.enroll s r) where
  jobs := by simp [Client.enroll, hh.jobs]
  ended i u b hget job := by
    simp only [Client.enroll, List.getElem?_append, List.getElem?_singleton, trips, hh.jobs]
      at hget job
    split at hget
    · rename_i lt
      rw [if_pos lt] at job
      exact hh.ended i u b hget job
    · -- The new trip has only just set out.
      rename_i ge
      rw [if_neg ge] at job
      split at hget
      · rename_i first
        rw [if_pos first] at job
        cases hget
        cases job
        simp [Job.hasEnded, Trip.start]
      · cases hget
  reports i := by
    have same : (c.enroll s r).trips[i]?.map Trip.stage = some .home ↔
        c.trips[i]?.map Trip.stage = some .home := by
      simp only [Client.enroll, List.getElem?_append, List.getElem?_singleton]
      split
      · rfl
      · rename_i ge
        rw [List.getElem?_eq_none (Nat.le_of_not_lt ge)]
        split <;> simp [Trip.start]
    rw [show (c.enroll s r).reports = c.reports from rfl, hh.reports i]
    simp only [same]
  names r mem := by
    rcases hh.names r mem with ⟨s', hget, name⟩
    exact ⟨s', by rw [List.getElem?_append_left (List.getElem?_eq_some_iff.1 hget).1, hget], name⟩

/-- A trip comes home with its report. -/
theorem calledBack {entry : Report} {crew : Crew} (hh : Homecomings a c)
    (trip : c.trips[j]? = some t) (out : t.stage ≠ .home)
    (finish : c.crew.step? (.finish j false) = some crew) (own : entry.trip = j)
    (name : ∃ s, a[j]? = some s ∧ s.id = entry.id) :
    Homecomings a (c.calledBack j t entry crew) := by
  have moved := Crew.jobMove_of_step? finish
  generalize hjobs : c.crew.jobs = before at moved
  generalize hjobs' : crew.jobs = after at moved
  cases moved with
  | quiet hnil => cases hnil
  | finished hget =>
      refine ⟨?_, ?_, ?_, ?_⟩
      · simp [Client.calledBack, hjobs', ← hjobs, hh.jobs]
      · intro i u b trip' job
        simp only [Client.calledBack, Client.setTrip, hjobs', List.getElem?_set] at trip' job
        -- The job of this trip ends here, as it comes home; the others are where they were.
        split at trip'
        · rename_i same
          subst same
          split at trip'
          · rw [if_pos rfl] at job
            split at job
            · cases trip'
              cases job
              simp [Job.hasEnded, Trip.standing]
            · cases job
          · cases trip'
        · rename_i ne
          rw [if_neg ne, ← hjobs] at job
          exact hh.ended i u b trip' job
      · intro i
        rcases List.getElem?_eq_some_iff.1 trip with ⟨lt, get⟩
        have before := hh.reports i
        simp only [Client.calledBack, Client.setTrip, List.countP_append, List.countP_singleton,
          before, own, List.getElem?_set]
        by_cases same : j = i
        · subst same
          simp [lt, get, out, Trip.standing]
        · simp [same]
      · intro r mem
        simp only [Client.calledBack, List.mem_append, List.mem_singleton] at mem
        rcases mem with old | rfl
        · exact hh.names r old
        · rw [own]
          exact name

end Homecomings

/-! ## Every move keeps the books -/

namespace Books

theorem start (threads : Nat) : Books [] (fun _ => []) (ofThreads threads) where
  tickets := rfl
  trips := rfl
  jobs := rfl
  unborn _ _ := rfl
  active id j := by simp [ofThreads, Desk.empty]
  shows j t trip := by simp [ofThreads] at trip
  ended j t b trip := by simp [ofThreads] at trip
  reports j := by simp [ofThreads]
  names r mem := by simp [ofThreads] at mem

/-- What is done to the tickets but to their contents keeps the books. -/
theorem onDesk {desk : Desk} (hb : Books a m c) (active : desk.active = c.desk.active)
    (tickets : desk.tickets.map Ticket.content = c.desk.tickets.map Ticket.content) :
    Books a m { c with desk } where
  tickets := tickets.trans hb.tickets
  trips := hb.trips
  unborn := hb.unborn
  active id i := by
    rw [show desk.active.get? id = c.desk.active.get? id from by rw [active]]
    exact hb.active id i
  shows := hb.shows
  toHomecomings := ⟨hb.jobs, hb.ended, hb.reports, hb.names⟩

theorem onCrew {e' : Crew.Event} {crew : Crew} (hb : Books a m c)
    (step : c.crew.step? e' = some crew) (noCount : ∀ o, e' ≠ .count o)
    (noFinish : ∀ i failed, e' ≠ .finish i failed) : Books a m { c with crew } where
  toRoll := ⟨hb.tickets, hb.trips, hb.unborn, hb.active, hb.shows⟩
  toHomecomings := hb.toHomecomings.onCrew step noCount noFinish

/-- A trip goes on without giving back its name or coming home. -/
theorem setTrip (hb : Books a m c) (trip : c.trips[j]? = some t)
    (others : ∀ i, i ≠ j → m' i = m i) (shows : t'.Shows (m' j))
    (home : t'.stage = .home ↔ t.stage = .home) (retired : .retired ∈ m' j ↔ .retired ∈ m j) :
    Books a m' (c.setTrip j t') where
  toRoll := hb.toRoll.set_of_desk rfl rfl trip others shows retired
  toHomecomings := hb.toHomecomings.set rfl rfl rfl trip home

theorem enroll {s : Submission} {r : Roster} (hb : Books a m c)
    (free : c.desk.active.insert? s.id c.trips.length = some r) :
    Books (a ++ [s]) m (c.enroll s r) where
  toRoll := hb.toRoll.enroll free
  toHomecomings := hb.toHomecomings.enroll hb.trips

/-- A submission keeps the books, whether it is accepted or not. -/
theorem submit (hb : Books a m c) (s : Submission) :
    Books (a ++ (if (c.submit s).2 then some s else none).toList) m (c.submit s).1 := by
  cases free : c.desk.active.insert? s.id c.trips.length with
  | none => simpa [submit_of_taken free] using hb
  | some r => simpa [submit_of_insert? free] using hb.enroll free

/-- When one trip goes on, nothing more is seen of the others. -/
theorem others_of_set (c' : Client) (trips : c'.trips = c.trips.set j t')
    (trip : c.trips[j]? = some t) :
    ∀ i, i ≠ j → m i ++ (c.seen? i c').toList = m i := by
  intro i ne
  simp [seen?_of_set c' trips trip, Ne.symm ne]

/-- Nothing is seen of an event that neither submits nor moves a trip. -/
theorem of_unseen (submits : c.submission? e = none) (unseen : ∀ i, c.seen? i c' = none)
    (hb : Books a m c') :
    Books (a ++ (c.accepted? e).toList) (fun i => m i ++ (c.seen? i c').toList) c' := by
  simpa [accepted?, submits, unseen] using hb

/-- A trip goes on without submitting, giving back its name or coming home. -/
theorem goOn (hb : Books a m c) (of : e.trip? = some (j, mv)) (runs : Runs c j t k)
    (elsewhere : ∀ o inUse payload later, t.stage ≠ .resubmitting o inUse payload later)
    (kept : ∀ E, t.stage ≠ .retiring E) (shows : t'.Shows (m j ++ (t.mark? t').toList))
    (home : t'.stage = .home ↔ t.stage = .home) :
    Books (a ++ (c.accepted? e).toList) (fun i => m i ++ (c.seen? i (c.setTrip j t')).toList)
      (c.setTrip j t') := by
  have seen := seen?_of_set (c.setTrip j t') rfl runs.trip
  have still : t.mark? t' ≠ some .retired := fun seen =>
    (Trip.stages_of_retired seen).1.elim kept
  rw [accepted?_of_trip? of runs.trip elsewhere, Option.toList_none, List.append_nil]
  refine hb.setTrip runs.trip (others_of_set _ rfl runs.trip) ?_ home ?_
  · simpa [seen] using shows
  · simp [seen, still]

/-- A trip that gave back its name was seen to do so. -/
theorem retired (hb : Books a m c) (trip : c.trips[j]? = some t)
    (past : t.stage.hasRetired = true) : .retired ∈ m j :=
  (hb.shows j t trip).stage.retired past

/-- A trip that gave back its name goes on, and its socket stays closed. -/
theorem shows_standing {s : Trip.Stage} {ms : List Trip.Mark} (hb : Books a m c)
    (trip : c.trips[j]? = some t) (past : t.stage.hasRetired = true)
    (unopened : .opened ∉ ms) (allows : s.Allows (m j ++ ms)) : (t.standing s).Shows (m j ++ ms) := by
  have retired := hb.retired trip past
  refine (hb.shows j t trip).standing ?_ allows ?_ (by simp [unopened])
  · intro same
    simp [same] at retired
  · intro same
    have behind := List.mem_append_left ms retired
    simp [same] at behind

/-- A trip that gave back its name goes on without submitting or coming home. -/
theorem goOn_retired {s : Trip.Stage} (hb : Books a m c) (runs : Runs c j t k)
    (elsewhere : ∀ o inUse payload later, t.stage ≠ .resubmitting o inUse payload later)
    (past : t.stage.hasRetired = true) (allows : s.Allows (m j ++ (t.stage.mark? s).toList))
    (home : s = .home ↔ t.stage = .home) :
    Books (a ++ (c.accepted? (.step j)).toList)
      (fun i => m i ++ (c.seen? i (c.setTrip j (t.standing s))).toList)
      (c.setTrip j (t.standing s)) := by
  have of : (Event.step j).trip? = some (j, .step) := rfl
  refine hb.goOn of runs elsewhere ?_ ?_ home
  · intro E stage
    rw [stage] at past
    cases past
  · rw [Trip.mark?_standing]
    exact hb.shows_standing runs.trip past (by simp [t.stage.mark?_ne_opened]) allows

/-- A trip under way is not home, before its move or behind it. -/
theorem home_of_move? (moved : t.move? k mv = some t') : t'.stage = .home ↔ t.stage = .home := by
  have before : t.stage ≠ .home := Trip.Stage.ne_of_isUnderWay (Trip.isUnderWay_of_move? moved) rfl
  have behind : t'.stage ≠ .home := by
    rcases Trip.move?_cases moved with ⟨underWay, -⟩ | ⟨E, stage, -⟩
    · exact Trip.Stage.ne_of_isUnderWay underWay rfl
    · simp [stage]
  simp [before, behind]

/-- A trip comes home behind its callback. -/
theorem comeHome {entry : Report} {crew : Crew} (hb : Books a m c) (trip : c.trips[j]? = some t)
    (out : t.stage ≠ .home) (finish : c.crew.step? (.finish j false) = some crew)
    (own : entry.trip = j) (name : ∃ s, a[j]? = some s ∧ s.id = entry.id)
    (others : ∀ i, i ≠ j → m' i = m i) (shows : (t.standing .home).Shows (m' j))
    (retired : .retired ∈ m' j ↔ .retired ∈ m j) : Books a m' (c.calledBack j t entry crew) where
  toRoll := hb.toRoll.set_of_desk rfl rfl trip others shows retired
  toHomecomings := hb.toHomecomings.calledBack trip out finish own name

/-- A trip that calls back was seen on all of its itinerary. -/
theorem whole_of_reporting {o : Outcome} (hb : Books a m c) (trip : c.trips[j]? = some t)
    (stage : t.stage = .reporting o) :
    m j ++ [.called] = Trip.shortItinerary ∨ m j ++ [.called] = Trip.longItinerary := by
  rcases hb.allows trip stage with short | long
  · exact .inl (by rw [short]; rfl)
  · exact .inr (by rw [long]; rfl)

/-- Every move keeps the books. -/
theorem of_move (hb : Books a m c) (move : Move c e c') :
    Books (a ++ (c.accepted? e).toList) (fun i => m i ++ (c.seen? i c').toList) c' := by
  cases move with
  | @admitted s r free =>
      have unseen (i : Nat) : c.seen? i (c.enroll s r) = none := by
        simpa [submit_of_insert? free] using seen?_submit (c := c) s i
      simpa [accepted?_submit, submit_of_insert? free, unseen] using hb.enroll free
  | @turnedAway s taken =>
      simpa [accepted?_submit, submit_of_taken taken, seen?_of_trips] using hb
  | @underWay e j mv t t' k of runs moved =>
      have underWay := Trip.isUnderWay_of_move? moved
      have shows := (hb.shows j t runs.trip).move? moved
      refine hb.goOn of runs ?_ ?_ shows (home_of_move? moved)
      · intro o inUse payload later
        exact Trip.Stage.ne_of_isUnderWay underWay rfl
      · intro E
        exact Trip.Stage.ne_of_isUnderWay underWay rfl
  | @closed j t k E runs stage =>
      have shows := (hb.shows j t runs.trip).close stage rfl
      exact hb.goOn rfl runs (by simp [stage]) (by simp [stage]) shows (by simp [stage])
  | @retired j t k E runs stage =>
      have seen := seen?_of_set ({ c with desk := (c.desk.retire k.id).1 }.setTrip j
        (t.standing (.judging E))) rfl runs.trip
      rw [accepted?_of_trip? rfl runs.trip (by simp [stage]), Option.toList_none, List.append_nil]
      refine ⟨hb.toRoll.retire runs stage (others_of_set _ rfl runs.trip) ?_,
        hb.toHomecomings.set rfl rfl rfl runs.trip (by simp [stage, Trip.standing])⟩
      simp [seen, Trip.mark?_standing, stage, Trip.Stage.mark?]
  | @judged j t k E runs stage =>
      have allows := hb.allows runs.trip stage
      refine hb.goOn_retired runs (by simp [stage]) (by rw [stage]; rfl) ?_ (by simp [stage])
      simpa [stage, Trip.Stage.mark?, Trip.Stage.Allows] using allows
  | @calling j t k o payload later runs stage again =>
      have whole := hb.whole_of_reporting runs.trip stage
      refine hb.goOn_retired runs (by simp [stage]) (by rw [stage]; rfl) ?_ (by simp [stage])
      simpa [stage, Trip.Stage.mark?, Trip.Stage.Allows] using whole
  | @called j t k o crew runs stage last finish =>
      have seen := seen?_of_set (c.calledBack j t ⟨j, k.id, o, none⟩ crew) rfl runs.trip
      have called : t.mark? (t.standing .home) = some .called := by
        rw [Trip.mark?_standing, stage]
        rfl
      have shows : (t.standing .home).Shows (m j ++ [.called]) :=
        hb.shows_standing runs.trip (by rw [stage]; rfl) (by simp)
          (hb.whole_of_reporting runs.trip stage)
      rw [accepted?_of_trip? rfl runs.trip (by simp [stage]), Option.toList_none, List.append_nil]
      refine hb.comeHome runs.trip (by simp [stage]) finish rfl
        (hb.submission_of_ticket runs.ticket) (others_of_set _ rfl runs.trip) ?_ ?_
      · simpa [seen, called] using shows
      · simp [seen, called]
  | @resubmitted j t k o inUse accepted payload later d crew runs stage submitted finish =>
      have whole : m j = Trip.shortItinerary ∨ m j = Trip.longItinerary :=
        hb.allows runs.trip stage
      have shows : (t.standing .home).Shows (m j ++ []) :=
        hb.shows_standing runs.trip (by rw [stage]; rfl) (by simp) (by rwa [List.append_nil])
      rw [List.append_nil] at shows
      have unseen := seen?_of_resubmitting (d.calledBack j t
        ⟨j, k.id, o, some ⟨inUse, accepted⟩⟩ crew) runs.trip stage (by rw [submitted]; rfl)
      -- The books of the submission come first; the trip that made it comes home behind them.
      have books := hb.submit ⟨k.id, k.endpoint, payload, later⟩
      rw [← accepted?_of_resubmitting runs stage, submitted] at books
      have still := runs.submit ⟨k.id, k.endpoint, payload, later⟩
      rw [submitted] at still
      simpa [unseen] using books.comeHome still.trip (by simp [stage]) finish rfl
        (books.submission_of_ticket still.ticket) (fun _ _ => rfl) shows Iff.rfl
  | @left j t crew trip stage leave =>
      -- The job leaves the count, but its trip was home before and is seen no more.
      rw [accepted?_of_trip? rfl trip (by simp [stage])]
      simpa [seen?_of_trips] using hb.onCrew leave (by simp) (by simp)
  | @scripted e j f t of trip =>
      have same : Books a m (c.setTrip j (t.onWire f)) :=
        hb.setTrip trip (fun _ _ => rfl) ((hb.shows j t trip).onWire f) Iff.rfl Iff.rfl
      have unseen (i : Nat) : c.seen? i (c.setTrip j (t.onWire f)) = none := by
        have own : t.mark? (t.onWire f) = none := t.mark?_self
        simp [seen?_of_set (c.setTrip j (t.onWire f)) rfl trip, own]
      cases e <;> first | exact of_unseen rfl unseen same | cases of
  | @cancelled id =>
      have contents : (c.desk.cancel id).1.tickets.map Ticket.content =
          c.desk.tickets.map Ticket.content := by
        rw [Desk.cancel_eq_foldl]
        exact Desk.contents_foldl_cancelTicket _ _
      exact of_unseen rfl (seen?_of_trips rfl) (hb.onDesk (Desk.active_cancel id _) contents)
  | cancelledAll =>
      exact of_unseen rfl (seen?_of_trips rfl)
        (hb.onDesk (Desk.active_cancelAll _) (Desk.contents_foldl_cancelTicket _ _))
  | @onCrew e e' crew of step =>
      have same : Books a m { c with crew } := by
        refine hb.onCrew step ?_ ?_ <;> (cases e <;> cases of <;> simp)
      cases e <;> first | exact of_unseen rfl (seen?_of_trips rfl) same | cases of
  | @discarded j t crew trip discard =>
      have out : t.stage ≠ .home := by
        -- Only a job that is alive is discarded, and the job of a trip at home has ended.
        intro home
        have live := Crew.live_of_discard discard
        exact absurd ((hb.ended j t .live trip live).2 home) (by simp [Job.hasEnded])
      have shows := (hb.shows j t trip).drop rfl
      have seen := seen?_of_set ({ c with crew }.setTrip j
        { t with stage := .dropped, socketOpen := false }) rfl trip
      have still : t.mark? { t with stage := .dropped, socketOpen := false } ≠ some .retired := by
        intro seen
        rcases (Trip.stages_of_retired seen).2 with ⟨E, stage⟩
        cases stage
      have submitsNone : c.accepted? (.discard j) = none := rfl
      rw [submitsNone, Option.toList_none, List.append_nil]
      refine (hb.onCrew discard (by simp) (by simp)).setTrip trip (others_of_set _ rfl trip) ?_
        (by simp [out]) ?_
      · simpa [seen] using shows
      · simp [seen, still]

/-- A report comes of a trip that is home. -/
theorem trip_of_report {r : Report} (hb : Books a m c) (mem : r ∈ c.reports) :
    ∃ t, c.trips[r.trip]? = some t ∧ t.stage = .home := by
  have counted : 0 < c.reports.countP (·.trip == r.trip) :=
    List.countP_pos_iff.2 ⟨r, mem, by simp⟩
  rw [hb.reports] at counted
  split at counted
  · rename_i home
    exact Option.map_eq_some_iff.1 home
  · exact absurd counted (Nat.lt_irrefl 0)

/-- A trip that reported has given back its name. -/
theorem retired_of_report {r : Report} (hb : Books a m c) (mem : r ∈ c.reports) :
    .retired ∈ m r.trip := by
  rcases hb.trip_of_report mem with ⟨t, trip, home⟩
  exact hb.retired trip (by rw [home]; rfl)

end Books

/-! ## Runs -/

/-- The submissions that were accepted in a run, by the order of their trips. -/
def accepted (threads : Nat) (es : List Event) : List Submission :=
  (machine threads).log accepted? (ofThreads threads) es

/-- What was seen of trip `j` in a run. -/
def marks (threads : Nat) (es : List Event) (j : Nat) : List Trip.Mark :=
  (machine threads).log (mark? j) (ofThreads threads) es

/-- The books are kept in every run. -/
theorem books_of_run {threads : Nat} {es : List Event}
    (run : (machine threads).run? (ofThreads threads) es = some c) :
    Books (accepted threads es) (marks threads es) c := by
  refine Machine.run?_induction (motive := fun es c => Books (accepted threads es)
    (marks threads es) c) (Books.start threads) ?_ run
  intro es c d e run last ih
  have next := ih.of_move (.of_step? last)
  have accepts : accepted threads (es ++ [e]) = accepted threads es ++ (c.accepted? e).toList :=
    Machine.log_concat accepted? run last
  have sees : marks threads (es ++ [e]) = fun j => marks threads es j ++ (c.seen? j d).toList := by
    funext j
    rw [← mark?_of_step? last]
    exact Machine.log_concat (mark? j) run last
  rw [accepts, sees]
  exact next

end Client
end LineExchange
