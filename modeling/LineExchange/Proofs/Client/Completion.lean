import LineExchange.Proofs.Client.Books

/-!
# Completion — every accepted request reports once, and the roster is accurate

This file draws from the books of a client what its users rely on: in every run the roster has the
accepted requests that did not give back their names and no others, a trip gives back no name but
its own, a submission that is turned away leaves no trace, and a trip that ended closed its socket,
gave back its name and called back, in this order and each once.
-/

namespace LineExchange
namespace Client

def hasEnded (c : Client) (j : Nat) : Bool :=
  c.crew.jobs[j]?.any Job.hasEnded

variable {threads : Nat} {es : List Event} {c : Client}

/-- A submission is turned away exactly when its name is in use. -/
theorem snd_submit (s : Submission) : (c.submit s).2 = !c.isActive s.id := by
  have takes := @Roster.insert?_isSome_iff c.desk.active s.id c.trips.length
  cases free : c.desk.active.insert? s.id c.trips.length with
  | none =>
      have used : c.desk.active.get? s.id ≠ none := by simpa [free] using takes
      simpa [submit_of_taken free, isActive, Roster.contains, Option.isSome_iff_ne_none] using used
  | some r =>
      have unused : c.desk.active.get? s.id = none := by simpa [free] using takes
      simp [submit_of_insert? free, isActive, Roster.contains, unused]

/-- A submission that is turned away changes nothing. -/
theorem fst_submit_of_turnedAway {s : Submission} (h : (c.submit s).2 = false) :
    (c.submit s).1 = c := by
  cases free : c.desk.active.insert? s.id c.trips.length with
  | none => rw [submit_of_taken free]
  | some r =>
      rw [submit_of_insert? free] at h
      cases h

namespace Books

variable {a : List Submission} {m : Nat → List Trip.Mark} {j : Nat}

/-- A trip took its last step exactly when it is home. -/
theorem hasEnded_iff (hb : Books a m c) :
    c.hasEnded j = true ↔ c.trips[j]?.map Trip.stage = some .home := by
  cases trip : c.trips[j]? with
  | none =>
      have beyond : c.crew.jobs.length ≤ j := by
        rw [hb.jobs, ← hb.trips]
        exact List.getElem?_eq_none_iff.1 trip
      simp [hasEnded, List.getElem?_eq_none beyond]
  | some t =>
      have within : j < c.crew.jobs.length := by
        rw [hb.jobs]
        exact hb.lt_of_trip trip
      have job := List.getElem?_eq_getElem within
      simpa [hasEnded, job] using hb.ended j t _ trip job

/-- A trip that took its last step was seen on the whole of an itinerary. -/
theorem whole_of_hasEnded (hb : Books a m c) (ended : c.hasEnded j = true) :
    m j = Trip.shortItinerary ∨ m j = Trip.longItinerary := by
  rcases Option.map_eq_some_iff.1 (hb.hasEnded_iff.1 ended) with ⟨t, trip, home⟩
  exact hb.allows trip home

/-- A trip was seen on a part of an itinerary. -/
theorem isPrefix (hb : Books a m c) (j : Nat) :
    m j <+: Trip.shortItinerary ∨ m j <+: Trip.longItinerary := by
  cases trip : c.trips[j]? with
  | none =>
      have beyond : a.length ≤ j := by
        rw [← hb.trips]
        exact List.getElem?_eq_none_iff.1 trip
      exact .inl (by simp [hb.unborn j beyond])
  | some t => exact (hb.shows j t trip).stage.isPrefix

end Books

/-- In every run of a client: the entries of the roster are the accepted requests that did not give
back their names, each under its own name and no name twice; the trip that is about to give back a
name is the occupant of that name; a submission is turned away when its name is in use, and then
changes nothing; there is one report of each trip that ended and none of any other, under the name
of its request; and a trip was seen on a part of an itinerary, on the whole of it when it ended,
where it is the long one if the trip had a connection, and its socket is open exactly when nothing
but the opening of it was seen. -/
theorem reports_once_and_keeps_roster
    (run : (machine threads).run? (ofThreads threads) es = some c) :
    (c.desk.tickets.map Ticket.content = (accepted threads es).map Submission.content ∧
      (c.desk.active.entries.map Prod.fst).Nodup ∧
      ∀ (id : UInt32) (j : Nat), (id, j) ∈ c.desk.active.entries ↔
        (∃ s, (accepted threads es)[j]? = some s ∧ s.id = id) ∧ .retired ∉ marks threads es j) ∧
    (∀ (j : Nat) (t : Trip) (k : Ticket) (E : Ending), c.trips[j]? = some t →
      c.desk.tickets[j]? = some k → t.stage = .retiring E → (c.desk.retire k.id).2 = some j) ∧
    (∀ s : Submission, (c.submit s).2 = !c.isActive s.id ∧
      ((c.submit s).2 = false → (c.submit s).1 = c)) ∧
    ((∀ j : Nat, c.reports.countP (·.trip == j) = if c.hasEnded j then 1 else 0) ∧
      ∀ r ∈ c.reports, ∃ s, (accepted threads es)[r.trip]? = some s ∧ s.id = r.id) ∧
    ∀ j : Nat,
      (marks threads es j <+: Trip.shortItinerary ∨ marks threads es j <+: Trip.longItinerary) ∧
      (c.hasEnded j = true →
        marks threads es j = Trip.shortItinerary ∨ marks threads es j = Trip.longItinerary) ∧
      ∀ t : Trip, c.trips[j]? = some t →
        (t.channel.isSome = true ↔ .opened ∈ marks threads es j) ∧
        (t.socketOpen = true ↔ marks threads es j = [.opened]) := by
  have books := books_of_run run
  refine ⟨⟨books.tickets, c.desk.active.nodup, ?_⟩, ?_, ?_, ⟨?_, books.names⟩, ?_⟩
  · intro id j
    rw [← Roster.get?_eq_some_iff]
    exact books.active id j
  · intro j t k E trip ticket stage
    exact books.get?_of_retiring trip ticket stage
  · intro s
    exact ⟨snd_submit s, fst_submit_of_turnedAway⟩
  · intro j
    rw [books.reports j]
    simp only [← books.hasEnded_iff]
  · intro j
    refine ⟨books.isPrefix j, books.whole_of_hasEnded, ?_⟩
    intro t trip
    exact ⟨(books.shows j t trip).channel, (books.shows j t trip).socket⟩

/-- One request fails to connect; its name is turned away while it is in use, and taken again by its
own callback.  Another one gets its response meanwhile. -/
def resubmittingRun : List Event :=
  let there : Endpoint := .v4 ⟨127, 0, 0, 1⟩ 7000
  let wire : Wire := { Wire.blank with arrivals := [.piece [111, 107, 10]] }
  [.submit ⟨7, there, [1], [[2]]⟩, .submit ⟨7, there, [3], []⟩, .submit ⟨8, there, [1], []⟩,
    .enqueue 0, .enqueue 1, .connect 1 (some (.ok wire))] ++ List.replicate 11 (.step 1) ++
    [.noSocket 0 (.bare .other)] ++ List.replicate 6 (.step 0)

theorem reports_once_of_resubmittingRun :
    ∃ c t, (machine 1).run? (ofThreads 1) resubmittingRun = some c ∧
      c.reports.countP (·.trip == 0) = 1 ∧ (7, 2) ∈ c.desk.active.entries ∧
      marks 1 resubmittingRun 0 = Trip.shortItinerary ∧
      marks 1 resubmittingRun 1 = Trip.longItinerary ∧
      c.trips[1]? = some t ∧ t.socketOpen = false := by
  obtain ⟨c, run⟩ : ∃ c, (machine 1).run? (ofThreads 1) resubmittingRun = some c := ⟨_, rfl⟩
  obtain ⟨t, trip⟩ : ∃ t, c.trips[1]? = some t := by
    cases run
    exact ⟨_, rfl⟩
  rcases reports_once_and_keeps_roster run with ⟨⟨-, -, roster⟩, -, -, ⟨once, -⟩, whole⟩
  have ended : c.hasEnded 0 = true ∧ c.hasEnded 1 = true := by
    cases run
    exact ⟨rfl, rfl⟩
  have unseen : marks 1 resubmittingRun 2 = [] := rfl
  have long : marks 1 resubmittingRun 1 = Trip.longItinerary :=
    ((whole 1).2.1 ended.2).resolve_left (by decide)
  refine ⟨c, t, run, ?_, ?_, ?_, long, trip, ?_⟩
  · rw [once 0, if_pos ended.1]
  · refine (roster 7 2).2 ⟨⟨_, rfl, rfl⟩, ?_⟩
    simp [unseen]
  · exact ((whole 0).2.1 ended.1).resolve_right (by decide)
  · have socket := ((whole 1).2.2 t trip).2
    rw [long] at socket
    simpa [Trip.longItinerary] using socket

end Client
end LineExchange
