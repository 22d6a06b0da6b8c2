import LineExchange.Proofs.Client.Books

/-!
# Cancellation — what a request reports when it is cancelled, and when it is not

A cancellation may come between any two steps of a trip, also after its response was read.  This
file defines what decides about the report:

* `Client.struck` — the trips whose names an event cancels while they are active;
* `Client.Ends` — an event makes an end of a trip;
* `Client.Chronicle` — how the tickets, stages and reports agree with the strikes and the ends so
  far.

The invariant `Chronicle` is kept by every move (`Chronicle.of_move`).  The part that carries it is
that a strike reaches only trips that did not give back their names, and the flag is looked at
after that; so the last look at the flag tells whether the trip was ever struck.
-/

namespace LineExchange

/-! ## What a stage and an outcome say about the past -/

namespace Trip

structure EndedBy (struck : Prop) (ended : Ending → Prop) (E : Ending) : Prop where
  only : ∀ E', ended E' ↔ E' = E
  cause : E = .cancelled → struck
  proper : E ≠ .failed .cancelled

/-- An outcome is what comes of the one end of a trip and of the flag behind all strikes. -/
def Told (struck : Prop) (ended : Ending → Prop) (o : Outcome) : Prop :=
  ∃ (E : Ending) (flag : Bool), o = E.outcome flag ∧ (flag = true ↔ struck) ∧
    EndedBy struck ended E

/-- A stage agrees with the strikes and ends so far. -/
def Stage.Accords (struck : Prop) (ended : Ending → Prop) : Stage → Prop
  | .connecting .. | .connected | .writing _ | .written | .searching | .awaiting _ =>
      ∀ E, ¬ended E
  | .closing E | .retiring E | .judging E => EndedBy struck ended E
  | .reporting o | .resubmitting o .. => Told struck ended o
  | .home | .dropped => True

variable {struck struck' : Prop} {ended : Ending → Prop} {s : Stage} {k : Ticket} {t t' : Trip}
  {mv : Move} {E : Ending}

theorem Stage.accords_of_isUnderWay (h : s.isUnderWay = true) :
    s.Accords struck ended ↔ ∀ E, ¬ended E := by
  cases s <;> first | rfl | cases h

theorem EndedBy.of_struck (h : EndedBy struck ended E) (now : struck') :
    EndedBy struck' ended E :=
  ⟨h.only, fun _ => now, h.proper⟩

/-- Only a trip that did not give back its name can be struck without telling a lie later. -/
theorem Stage.Accords.of_struck {ms : List Mark} (h : s.Accords struck ended)
    (allows : s.Allows ms) (active : .retired ∉ ms) (now : struck') :
    s.Accords struck' ended := by
  cases s with
  | connecting => exact h
  | connected => exact h
  | writing => exact h
  | written => exact h
  | searching => exact h
  | awaiting => exact h
  | closing => exact EndedBy.of_struck h now
  | retiring => exact EndedBy.of_struck h now
  -- Behind the removal nothing is struck, so these stages need not tell of it.
  | judging => exact absurd (allows.retired rfl) active
  | reporting => exact absurd (allows.retired rfl) active
  | resubmitting => exact absurd (allows.retired rfl) active
  | home => trivial
  | dropped => trivial

/-- Only a trip under way can be brought to an end. -/
theorem EndsBy.isUnderWay (h : EndsBy k t mv E) : t.stage.isUnderWay = true := by
  cases h with
  | noSocket stage => rw [stage]; rfl
  | raisedConnecting stage => rw [stage]; rfl
  | unconnected stage => rw [stage]; rfl
  | flagged stage => rcases stage with stage | stage <;> rw [stage] <;> rfl
  | unwritten _ stage => rw [stage]; rfl
  | unflushed _ stage => rw [stage]; rfl
  | read _ stage => rw [stage]; rfl
  | overfull _ stage => rw [stage]; rfl
  | raisedReading _ stage => rw [stage]; rfl
  | unread _ stage => rw [stage]; rfl

/-- A failure is never a cancellation under another name. -/
theorem EndsBy.proper (h : EndsBy k t mv E) : E ≠ .failed .cancelled := by
  cases h <;> simp

/-- A move under way comes to a stage that agrees with the ends so far and with its own. -/
theorem accords_of_move? (moved : t.move? k mv = some t') (sound : k.IsSound)
    (flag : k.cancelled = true → struck) (fresh : ∀ E, ¬ended E) :
    t'.stage.Accords struck fun E => ended E ∨ EndsBy k t mv E := by
  rcases move?_cases moved with ⟨underWay, hnone⟩ | ⟨E, stage, only⟩
  · rw [Stage.accords_of_isUnderWay underWay]
    intro E ends
    exact ends.elim (fresh E) (hnone E)
  · rw [stage]
    have ends : EndsBy k t mv E := (only E).2 rfl
    refine ⟨?_, ?_, ends.proper⟩
    · intro E'
      rw [← only E']
      simp [fresh E']
    · rintro rfl
      rcases ends.cancelled_or_raised with set | raised
      · exact flag set
      · exact flag (sound ▸ raised)

/-! ## What an outcome tells -/

variable {o : Outcome}

/-- A trip that was struck reports no response: it reports the failure that ended it, or else the
cancellation. -/
theorem Told.of_struck (h : Told struck ended o) (hit : struck) :
    (∀ text, o ≠ .response text) ∧
      ((o = .failed .cancelled ∧ ∀ e, ¬ended (.failed e)) ∨
        ∃ e, o = .failed e ∧ e ≠ .cancelled ∧ ended (.failed e)) := by
  rcases h with ⟨E, flag, rfl, flagged, hended⟩
  obtain rfl : flag = true := flagged.2 hit
  cases E with
  | text t => exact ⟨by simp [Ending.outcome], .inl ⟨rfl, by simp [hended.only]⟩⟩
  | cancelled => exact ⟨by simp [Ending.outcome], .inl ⟨rfl, by simp [hended.only]⟩⟩
  | failed e =>
      have other : e ≠ .cancelled := fun same => hended.proper (by rw [same])
      exact ⟨by simp [Ending.outcome], .inr ⟨e, rfl, other, (hended.only _).2 rfl⟩⟩

/-- A trip that was not struck reports no cancellation. -/
theorem Told.of_not_struck (h : Told struck ended o) (spared : ¬struck) :
    o ≠ .failed .cancelled := by
  rcases h with ⟨E, flag, rfl, flagged, hended⟩
  obtain rfl : flag = false := by simpa using mt flagged.1 spared
  cases E with
  | text t => simp [Ending.outcome]
  | cancelled => exact absurd (hended.cause rfl) spared
  | failed e =>
      have other : e ≠ .cancelled := fun same => hended.proper (by rw [same])
      simpa [Ending.outcome] using other

/-- A response is reported exactly when its line was read and the trip was not struck. -/
theorem Told.response_iff (h : Told struck ended o) (text : String) :
    o = .response text ↔ ended (.text text) ∧ ¬struck := by
  rcases h with ⟨E, flag, rfl, flagged, hended⟩
  rw [hended.only, ← flagged]
  cases E with
  | text t => cases flag <;> simp [Ending.outcome, eq_comm]
  | cancelled => simp [Ending.outcome]
  | failed e => simp [Ending.outcome]

end Trip

namespace Client

/-! ## Strikes and ends -/

/-- The trips that an event cancels: those under active names only. -/
def struck (c : Client) : Event → List Nat
  | .cancel id => (c.desk.active.get? id).toList
  | .cancelAll => c.desk.active.occupants
  | _ => []

def Event.Names (id : UInt32) : Event → Prop
  | .cancel other => other = id
  | .cancelAll => True
  | _ => False

def Ends (c : Client) (e : Event) (j : Nat) (E : Ending) : Prop :=
  ∃ (mv : Trip.Move) (t : Trip) (k : Ticket), e.trip? = some (j, mv) ∧ Runs c j t k ∧
    Trip.EndsBy k t mv E

structure Chronicle (hit : Nat → Prop) (ended : Nat → Ending → Prop) (c : Client) : Prop where
  size : c.desk.tickets.length = c.trips.length
  tickets : ∀ (j : Nat) (k : Ticket), c.desk.tickets[j]? = some k →
    k.IsSound ∧ (k.cancelled = true ↔ hit j)
  unborn : ∀ j, c.trips.length ≤ j → ¬hit j ∧ ∀ E, ¬ended j E
  stage : ∀ (j : Nat) (t : Trip), c.trips[j]? = some t → t.stage.Accords (hit j) (ended j)
  reports : ∀ r ∈ c.reports, Trip.Told (hit r.trip) (ended r.trip) r.outcome

variable {a : List Submission} {m : Nat → List Trip.Mark} {c c' : Client} {e : Event} {j : Nat}
  {mv : Trip.Move} {t t' : Trip} {k : Ticket} {hit hit' : Nat → Prop}
  {ended ended' : Nat → Ending → Prop}

theorem struck_of_trip? (of : e.trip? = some (j, mv)) : c.struck e = [] := by
  cases e <;> first | rfl | cases of

theorem ends_iff (of : e.trip? = some (j, mv)) (runs : Runs c j t k) (i : Nat) (E : Ending) :
    c.Ends e i E ↔ i = j ∧ Trip.EndsBy k t mv E := by
  constructor
  · rintro ⟨mv', t', k', of', runs', ends⟩
    cases of.symm.trans of'
    cases runs.trip.symm.trans runs'.trip
    cases runs.ticket.symm.trans runs'.ticket
    exact ⟨rfl, ends⟩
  · rintro ⟨rfl, ends⟩
    exact ⟨mv, t, k, of, runs, ends⟩

theorem not_ends_of_trip? (of : e.trip? = none) (i : Nat) (E : Ending) : ¬c.Ends e i E := by
  rintro ⟨mv, t, k, of', -⟩
  rw [of] at of'
  cases of'

/-- A step of a trip that is not under way makes no end. -/
theorem not_ends_of_stage (trip : c.trips[j]? = some t) (past : t.stage.isUnderWay = false)
    (i : Nat) (E : Ending) : ¬c.Ends (.step j) i E := by
  rintro ⟨mv, u, k, of, runs, ends⟩
  cases of
  cases trip.symm.trans runs.trip
  rw [ends.isUnderWay] at past
  cases past

/-- Struck are the accepted requests under the names that an event cancels, those that did not
give back their names. -/
theorem mem_struck_iff (hb : Books a m c) :
    j ∈ c.struck e ↔ (∃ s, a[j]? = some s ∧ e.Names s.id) ∧ .retired ∉ m j := by
  cases e with
  | cancel id =>
      simp only [struck, Option.mem_toList, hb.active, Event.Names, eq_comm]
  | cancelAll =>
      simp only [struck, Roster.mem_occupants_iff, hb.active, Event.Names, and_true]
      constructor
      · rintro ⟨id, ⟨s, hget, -⟩, notYet⟩
        exact ⟨⟨s, hget⟩, notYet⟩
      · rintro ⟨⟨s, hget⟩, notYet⟩
        exact ⟨s.id, ⟨s, hget, rfl⟩, notYet⟩
  | _ => simp [struck, Event.Names]

/-- Only a trip that did not give back its name is struck. -/
theorem not_retired_of_struck (hb : Books a m c) (struck : j ∈ c.struck e) :
    j < a.length ∧ .retired ∉ m j := by
  rcases (mem_struck_iff hb).1 struck with ⟨⟨s, hget, -⟩, notYet⟩
  exact ⟨(List.getElem?_eq_some_iff.1 hget).1, notYet⟩

/-- A name is found by a cancellation exactly when the cancellation strikes a trip. -/
theorem cancel_found_iff (id : UInt32) :
    (c.cancel id).2 = true ↔ ∃ j, j ∈ c.struck (.cancel id) := by
  simp only [struck, Option.mem_toList]
  exact Desk.cancel_found_iff

/-! ## Every move keeps the chronicle -/

namespace Chronicle

theorem start (threads : Nat) : Chronicle (fun _ => False) (fun _ _ => False) (ofThreads threads) where
  size := rfl
  tickets j k ticket := by simp [ofThreads, Desk.empty] at ticket
  unborn j _ := ⟨id, fun _ => id⟩
  stage j t trip := by simp [ofThreads] at trip
  reports r mem := by simp [ofThreads] at mem

/-- An event without strikes and ends leaves the past as it was. -/
theorem of_quiet (noStrike : c.struck e = []) (noEnd : ∀ i E, ¬c.Ends e i E)
    (hc : Chronicle hit ended c') :
    Chronicle (fun i => hit i ∨ i ∈ c.struck e) (fun i E => ended i E ∨ c.Ends e i E) c' := by
  simpa [noStrike, noEnd] using hc

/-- A step of a trip that is not under way leaves the past as it was. -/
theorem of_step (trip : c.trips[j]? = some t) (past : t.stage.isUnderWay = false)
    (hc : Chronicle hit ended c') :
    Chronicle (fun i => hit i ∨ i ∈ c.struck (.step j))
      (fun i E => ended i E ∨ c.Ends (.step j) i E) c' :=
  of_quiet rfl (not_ends_of_stage trip past) hc

/-- The stage of a trip agrees with its past. -/
theorem accords {s : Trip.Stage} (hc : Chronicle hit ended c) (trip : c.trips[j]? = some t)
    (stage : t.stage = s) : s.Accords (hit j) (ended j) := by
  rw [← stage]
  exact hc.stage j t trip

/-- What changes neither tickets nor trips nor reports keeps the chronicle. -/
theorem congr (hc : Chronicle hit ended c) (tickets : c'.desk.tickets = c.desk.tickets)
    (trips : c'.trips = c.trips) (reports : c'.reports = c.reports) : Chronicle hit ended c' where
  size := by rw [tickets, trips, hc.size]
  tickets := by rw [tickets]; exact hc.tickets
  unborn := by rw [trips]; exact hc.unborn
  stage := by rw [trips]; exact hc.stage
  reports := by rw [reports]; exact hc.reports

/-- A trip goes on to a stage that agrees with the past, of which more may be known. -/
theorem setTrip_of_told (hc : Chronicle hit ended c) (inTrips : j < c.trips.length)
    (others : ∀ i, i ≠ j → ended' i = ended i)
    (told : ∀ r ∈ c.reports, Trip.Told (hit r.trip) (ended' r.trip) r.outcome)
    (accords : t'.stage.Accords (hit j) (ended' j)) : Chronicle hit ended' (c.setTrip j t') where
  size := by simp [Client.setTrip, hc.size]
  tickets := hc.tickets
  unborn i le := by
    have beyond : c.trips.length ≤ i := by simpa [Client.setTrip] using le
    rw [others i (Nat.ne_of_gt (Nat.lt_of_lt_of_le inTrips beyond))]
    exact hc.unborn i beyond
  stage i u hget := by
    simp only [Client.setTrip, List.getElem?_set] at hget
    split at hget
    · rename_i same
      subst same
      cases hget
      exact accords
    · rename_i ne
      rw [others i (Ne.symm ne)]
      exact hc.stage i u hget
  reports := told

/-- A trip goes on to a stage that agrees with the past. -/
theorem setTrip (hc : Chronicle hit ended c) (trip : c.trips[j]? = some t)
    (accords : t'.stage.Accords (hit j) (ended j)) : Chronicle hit ended (c.setTrip j t') :=
  hc.setTrip_of_told (List.getElem?_eq_some_iff.1 trip).1 (fun _ _ => rfl) hc.reports accords

/-- A trip under way moves, which may bring it to an end. -/
theorem move (hc : Chronicle hit ended c) (hb : Books a m c) (of : e.trip? = some (j, mv))
    (runs : Runs c j t k) (moved : t.move? k mv = some t') :
    Chronicle hit (fun i E => ended i E ∨ c.Ends e i E) (c.setTrip j t') := by
  have underWay := Trip.isUnderWay_of_move? moved
  have others (i : Nat) (ne : i ≠ j) : (fun E => ended i E ∨ c.Ends e i E) = ended i := by
    simp [ends_iff of runs, ne]
  refine hc.setTrip_of_told (List.getElem?_eq_some_iff.1 runs.trip).1 others ?_ ?_
  · -- A trip that reported is home, so it is not the one that makes an end now.
    intro r mem
    have away : r.trip ≠ j := by
      intro same
      rcases hb.trip_of_report mem with ⟨u, trip, home⟩
      rw [same] at trip
      cases runs.trip.symm.trans trip
      exact Trip.Stage.ne_of_isUnderWay underWay rfl home
    rw [others r.trip away]
    exact hc.reports r mem
  · rcases hc.tickets j k runs.ticket with ⟨sound, flag⟩
    have fresh := (Trip.Stage.accords_of_isUnderWay underWay).1 (hc.stage j t runs.trip)
    simpa [ends_iff of runs] using Trip.accords_of_move? moved sound flag.1 fresh

/-- A request that is accepted has no past. -/
theorem enroll {s : Submission} {r : Roster} (hc : Chronicle hit ended c) :
    Chronicle hit ended (c.enroll s r) where
  size := by simp [Client.enroll, Desk.issue, hc.size]
  tickets i k ticket := by
    simp only [Client.enroll, Desk.issue, List.getElem?_append, List.getElem?_singleton] at ticket
    split at ticket
    · exact hc.tickets i k ticket
    · rename_i ge
      split at ticket
      · cases ticket
        -- Nothing strikes a ticket before it is issued.
        have hnone := (hc.unborn i (hc.size ▸ Nat.le_of_not_lt ge)).1
        exact ⟨Ticket.isSound_issue _ _ _, by simp [Ticket.issue, hnone]⟩
      · cases ticket
  unborn i le := hc.unborn i (Nat.le_trans (by simp [Client.enroll]) le)
  stage i t trip := by
    simp only [Client.enroll, List.getElem?_append, List.getElem?_singleton] at trip
    split at trip
    · exact hc.stage i t trip
    · rename_i ge
      split at trip
      · cases trip
        exact (hc.unborn i (Nat.le_of_not_lt ge)).2
      · cases trip
  reports := hc.reports

theorem submit (hc : Chronicle hit ended c) (s : Submission) :
    Chronicle hit ended (c.submit s).1 := by
  cases free : c.desk.active.insert? s.id c.trips.length with
  | none => rwa [submit_of_taken free]
  | some r =>
      rw [submit_of_insert? free]
      exact hc.enroll

/-- A trip comes home with a report that agrees with its past. -/
theorem calledBack {entry : Report} {crew : Crew} (hc : Chronicle hit ended c)
    (trip : c.trips[j]? = some t) (own : entry.trip = j)
    (told : Trip.Told (hit j) (ended j) entry.outcome) :
    Chronicle hit ended (c.calledBack j t entry crew) := by
  have home : Chronicle hit ended (c.setTrip j (t.standing .home)) := hc.setTrip trip trivial
  refine ⟨home.size, home.tickets, home.unborn, home.stage, ?_⟩
  intro r mem
  simp only [Client.calledBack, List.mem_append, List.mem_singleton] at mem
  rcases mem with old | rfl
  · exact hc.reports r old
  · rw [own]
    exact told

/-- Trips are struck. -/
theorem strike {desk : Desk} (hc : Chronicle hit ended c) (hb : Books a m c)
    (struck : desk = (c.struck e).foldl (fun d k => d.cancelTicket k) c.desk) :
    Chronicle (fun i => hit i ∨ i ∈ c.struck e) ended { c with desk } where
  size := by
    rw [← hc.size, struck]
    simpa using congrArg List.length (Desk.contents_foldl_cancelTicket (c.struck e) c.desk)
  tickets i k' ticket := by
    rw [struck] at ticket
    rcases Desk.getElem?_foldl_cancelTicket ticket with ⟨k, before, flag, sound⟩
    rcases hc.tickets i k before with ⟨was, hits⟩
    exact ⟨sound was, by rw [flag, hits]⟩
  unborn i le := by
    rcases hc.unborn i le with ⟨noHit, noEnd⟩
    refine ⟨?_, noEnd⟩
    rintro (before | now)
    · exact noHit before
    · have born := (not_retired_of_struck hb now).1
      rw [← hb.trips] at born
      exact absurd born (Nat.not_lt.2 le)
  stage i t trip := by
    have before := hc.stage i t trip
    by_cases now : i ∈ c.struck e
    · exact before.of_struck (hb.shows i t trip).stage (not_retired_of_struck hb now).2 (.inr now)
    · simpa [now] using before
  reports r mem := by
    -- A trip that reported had given back its name, so no event strikes it any more.
    have past : r.trip ∉ c.struck e := fun now =>
      (not_retired_of_struck hb now).2 (hb.retired_of_report mem)
    simpa [past] using hc.reports r mem

/-- Every move keeps the chronicle. -/
theorem of_move (hc : Chronicle hit ended c) (hb : Books a m c) (move : Move c e c') :
    Chronicle (fun i => hit i ∨ i ∈ c.struck e) (fun i E => ended i E ∨ c.Ends e i E) c' := by
  cases move with
  | admitted => exact of_quiet rfl (not_ends_of_trip? rfl) hc.enroll
  | turnedAway => exact of_quiet rfl (not_ends_of_trip? rfl) hc
  | underWay of runs moved =>
      simpa [struck_of_trip? of] using hc.move hb of runs moved
  | closed runs stage =>
      have past := hc.accords runs.trip stage
      exact of_step runs.trip (by rw [stage]; rfl) (hc.setTrip runs.trip past)
  | @retired j t k E runs stage =>
      have past := hc.accords runs.trip stage
      have erased : Chronicle hit ended { c with desk := (c.desk.retire k.id).1 } :=
        hc.congr rfl rfl rfl
      exact of_step runs.trip (by rw [stage]; rfl) (erased.setTrip runs.trip past)
  | @judged j t k E runs stage =>
      -- The flag is looked at behind the removal, so it shows every strike there will be.
      have past : Trip.EndedBy (hit j) (ended j) E := hc.accords runs.trip stage
      have flag := (hc.tickets j k runs.ticket).2
      exact of_step runs.trip (by rw [stage]; rfl)
        (hc.setTrip runs.trip ⟨E, k.cancelled, rfl, flag, past⟩)
  | calling runs stage again =>
      have past := hc.accords runs.trip stage
      exact of_step runs.trip (by rw [stage]; rfl) (hc.setTrip runs.trip past)
  | called runs stage last finish =>
      have past := hc.accords runs.trip stage
      exact of_step runs.trip (by rw [stage]; rfl) (hc.calledBack runs.trip rfl past)
  | @resubmitted j t k o inUse accepted payload later d crew runs stage submitted finish =>
      -- The new request has a ticket of its own, so what struck the old one is not handed on.
      have past := hc.accords runs.trip stage
      have behind := hc.submit ⟨k.id, k.endpoint, payload, later⟩
      have still := runs.submit ⟨k.id, k.endpoint, payload, later⟩
      rw [submitted] at behind still
      exact of_step runs.trip (by rw [stage]; rfl) (behind.calledBack still.trip rfl past)
  | left trip stage leave =>
      exact of_step trip (by rw [stage]; rfl) (hc.congr rfl rfl rfl)
  | @scripted e j f t of trip =>
      have same : Chronicle hit ended (c.setTrip j (t.onWire f)) := hc.setTrip trip (hc.stage j t trip)
      cases e <;> first | exact of_quiet rfl (not_ends_of_trip? rfl) same | cases of
  | @cancelled id =>
      have noEnd (i : Nat) (E : Ending) : ¬c.Ends (.cancel id) i E := not_ends_of_trip? rfl i E
      have struck : (c.desk.cancel id).1 =
          (c.struck (.cancel id)).foldl (fun d k => d.cancelTicket k) c.desk :=
        Desk.cancel_eq_foldl id c.desk
      simpa only [noEnd, or_false] using hc.strike hb struck
  | cancelledAll =>
      have noEnd (i : Nat) (E : Ending) : ¬c.Ends .cancelAll i E := not_ends_of_trip? rfl i E
      have struck : c.desk.cancelAll =
          (c.struck .cancelAll).foldl (fun d k => d.cancelTicket k) c.desk := rfl
      simpa only [noEnd, or_false] using hc.strike hb struck
  | @onCrew e e' crew of step =>
      have same : Chronicle hit ended { c with crew } := hc.congr rfl rfl rfl
      cases e <;> first | exact of_quiet rfl (not_ends_of_trip? rfl) same | cases of
  | @discarded j t crew trip discard =>
      have onCrew : Chronicle hit ended { c with crew } := hc.congr rfl rfl rfl
      exact of_quiet rfl (not_ends_of_trip? rfl) (onCrew.setTrip trip trivial)

end Chronicle

/-! ## Runs -/

variable {threads : Nat} {es : List Event}

def WasStruck (threads : Nat) (es : List Event) (j : Nat) : Prop :=
  (machine threads).Happens (fun c e => j ∈ c.struck e) (ofThreads threads) es

def CameTo (threads : Nat) (es : List Event) (j : Nat) (E : Ending) : Prop :=
  (machine threads).Happens (fun c e => c.Ends e j E) (ofThreads threads) es

/-- The chronicle is kept in every run. -/
theorem chronicle_of_run (run : (machine threads).run? (ofThreads threads) es = some c) :
    Chronicle (WasStruck threads es) (CameTo threads es) c := by
  refine Machine.run?_induction (motive := fun es c => Chronicle (WasStruck threads es)
    (CameTo threads es) c) ?_ ?_ run
  · have noStrike : WasStruck threads [] = fun _ => False :=
      funext fun j => eq_false (Machine.not_happens_nil _ _ _)
    have noEnd : CameTo threads [] = fun _ _ => False :=
      funext fun j => funext fun E => eq_false (Machine.not_happens_nil _ _ _)
    rw [noStrike, noEnd]
    exact Chronicle.start threads
  · intro es c d e run last ih
    have next := ih.of_move (books_of_run run) (.of_step? last)
    have strikes : WasStruck threads (es ++ [e]) =
        fun j => WasStruck threads es j ∨ j ∈ c.struck e :=
      funext fun j => propext (Machine.happens_concat run)
    have ends : CameTo threads (es ++ [e]) = fun j E => CameTo threads es j E ∨ c.Ends e j E :=
      funext fun j => funext fun E => propext (Machine.happens_concat run)
    rw [strikes, ends]
    exact next

/-- In every run of a client: a name is found by a cancellation exactly when the cancellation
strikes a trip; struck are the accepted requests under the names cancelled that did not give back
their names, and these alone are marked as cancelled; a trip that was struck reports no response,
but the failure that ended it or else the cancellation; a trip that was not struck reports no
cancellation; and a response is reported exactly by a trip that read its line and was not struck. -/
theorem cancellation_decides_report
    (run : (machine threads).run? (ofThreads threads) es = some c) :
    (∀ id, (c.cancel id).2 = true ↔ ∃ j, j ∈ c.struck (.cancel id)) ∧
    (∀ (e : Event) (j : Nat), j ∈ c.struck e ↔
      (∃ s, (accepted threads es)[j]? = some s ∧ e.Names s.id) ∧ .retired ∉ marks threads es j) ∧
    (∀ (j : Nat) (k : Ticket), c.desk.tickets[j]? = some k →
      (k.cancelled = true ↔ WasStruck threads es j)) ∧
    ∀ r ∈ c.reports,
      (WasStruck threads es r.trip →
        (∀ text, r.outcome ≠ .response text) ∧
          ((r.outcome = .failed .cancelled ∧ ∀ e, ¬CameTo threads es r.trip (.failed e)) ∨
            ∃ e, r.outcome = .failed e ∧ e ≠ .cancelled ∧
              CameTo threads es r.trip (.failed e))) ∧
      (¬WasStruck threads es r.trip → r.outcome ≠ .failed .cancelled) ∧
      ∀ text, r.outcome = .response text ↔
        CameTo threads es r.trip (.text text) ∧ ¬WasStruck threads es r.trip := by
  have books := books_of_run run
  have chronicle := chronicle_of_run run
  refine ⟨cancel_found_iff, ?_, ?_, ?_⟩
  · intro e j
    exact mem_struck_iff books
  · intro j k ticket
    exact (chronicle.tickets j k ticket).2
  · intro r mem
    have told := chronicle.reports r mem
    exact ⟨told.of_struck, told.of_not_struck, told.response_iff⟩

def readingRun : List Event :=
  let wire : Wire := { Wire.blank with arrivals := [.piece [111, 107, 10]] }
  [.submit ⟨7, .v4 ⟨127, 0, 0, 1⟩ 7000, [1], []⟩, .enqueue 0, .connect 0 (some (.ok wire))] ++
    List.replicate 7 (.step 0)

/-- A request is cancelled when its response was read, before it gives back its name. -/
def lateCancelRun : List Event :=
  readingRun ++ .cancel 7 :: List.replicate 4 (.step 0)

theorem no_response_of_lateCancelRun :
    ∃ c, (machine 1).run? (ofThreads 1) lateCancelRun = some c ∧
      ∃ r ∈ c.reports, WasStruck 1 lateCancelRun r.trip ∧ ∀ text, r.outcome ≠ .response text := by
  obtain ⟨c, run⟩ : ∃ c, (machine 1).run? (ofThreads 1) lateCancelRun = some c := ⟨_, rfl⟩
  have reported : c.reports = [⟨0, 7, .failed .cancelled, none⟩] := by
    cases run
    rfl
  have struck : WasStruck 1 lateCancelRun 0 :=
    ⟨readingRun, .cancel 7, List.replicate 4 (.step 0), _, rfl, rfl, by decide⟩
  rcases cancellation_decides_report run with ⟨-, -, -, decided⟩
  have mem : ⟨0, 7, .failed .cancelled, none⟩ ∈ c.reports := by simp [reported]
  exact ⟨c, run, _, mem, struck, ((decided _ mem).1 struck).1⟩

end Client
end LineExchange
