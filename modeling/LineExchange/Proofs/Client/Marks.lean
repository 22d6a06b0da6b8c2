import LineExchange.Proofs.Client.Moves

/-!
# Marks — what can be seen of a client and its trips

Of a run one sees which submissions are accepted, and of each trip when its socket is opened and
closed, when its name is given back, and when its callback is called.  This file defines:

* `Trip.Mark` and `Trip.mark?` — what is seen of a trip that goes from one state to another;
* `Trip.shortItinerary`, `Trip.longItinerary` — what is seen of a trip that had no connection, and
  of one that had;
* `Trip.Stage.Allows` — what may have been seen of a trip that stands at a stage;
* `Trip.Shows` — a trip stands where it may by what was seen of it, has a connection if its socket
  was seen to be opened, and has the socket open until something else is seen;
* `Client.mark?`, `Client.accepted?` — what an event shows of a trip, and what it submits.

The opening and the closing of a socket are read off the socket before and behind an event, at
whatever stage that comes to pass; a trip keeps to what its marks show at every move
(`Shows.move?`, `Shows.close`, `Shows.standing`, `Shows.drop`).
-/

namespace LineExchange

namespace Trip

/-! ## What is seen of a trip -/

inductive Mark where
  /-- Its socket was opened. -/
  | opened
  /-- Its socket was closed. -/
  | closed
  /-- Its name was given back. -/
  | retired
  /-- Its callback was called. -/
  | called
  deriving DecidableEq, Repr

def Stage.mark? : Stage → Stage → Option Mark
  | .retiring _, .judging _ => some .retired
  | .reporting _, .resubmitting .. | .reporting _, .home => some .called
  | _, _ => none

/-- What is seen of a trip that goes on from `t` to `t'`. -/
def mark? (t t' : Trip) : Option Mark :=
  match t.socketOpen, t'.socketOpen with
  | false, true => some .opened
  | true, false => some .closed
  | _, _ => t.stage.mark? t'.stage

def shortItinerary : List Mark :=
  [.retired, .called]

def longItinerary : List Mark :=
  [.opened, .closed, .retired, .called]

/-- What may have been seen of a trip that stands at a stage. -/
def Stage.Allows (ms : List Mark) : Stage → Prop
  | .connecting .. => ms = []
  | .connected | .writing _ | .written | .searching | .awaiting _ => ms = [.opened]
  | .closing _ => ms = [] ∨ ms = [.opened]
  | .retiring _ => ms = [] ∨ ms = [.opened, .closed]
  | .judging _ | .reporting _ => ms = [.retired] ∨ ms = [.opened, .closed, .retired]
  | .resubmitting .. | .home => ms = shortItinerary ∨ ms = longItinerary
  | .dropped => ms <+: shortItinerary ∨ ms <+: longItinerary

def Stage.hasRetired : Stage → Bool
  | .judging _ | .reporting _ | .resubmitting .. | .home => true
  | _ => false

/-- What was seen of a trip agrees with its stage, its connection and its socket. -/
structure Shows (t : Trip) (ms : List Mark) : Prop where
  stage : t.stage.Allows ms
  channel : t.channel.isSome = true ↔ .opened ∈ ms
  /-- The socket is open from its opening until something else is seen. -/
  socket : t.socketOpen = true ↔ ms = [.opened]

variable {ms ms' : List Mark} {s : Stage} {k : Ticket} {t t' : Trip} {mv : Move} {E : Ending}
  {o : Outcome}

/-! ## What a stage allows -/

/-- Whatever the stage, a trip has done its part of an itinerary. -/
theorem Stage.Allows.isPrefix (h : s.Allows ms) :
    ms <+: shortItinerary ∨ ms <+: longItinerary := by
  cases s with
  | connecting => exact .inl (h ▸ List.nil_prefix)
  | connected => exact .inr (h ▸ by decide)
  | writing => exact .inr (h ▸ by decide)
  | written => exact .inr (h ▸ by decide)
  | searching => exact .inr (h ▸ by decide)
  | awaiting => exact .inr (h ▸ by decide)
  | closing => exact .inr (by rcases h with h | h <;> rw [h] <;> decide)
  | retiring => exact .inr (by rcases h with h | h <;> rw [h] <;> decide)
  | judging =>
      rcases h with h | h
      · exact .inl (h ▸ by decide)
      · exact .inr (h ▸ by decide)
  | reporting =>
      rcases h with h | h
      · exact .inl (h ▸ by decide)
      · exact .inr (h ▸ by decide)
  | resubmitting =>
      rcases h with h | h
      · exact .inl (h ▸ List.prefix_rfl)
      · exact .inr (h ▸ List.prefix_rfl)
  | home =>
      rcases h with h | h
      · exact .inl (h ▸ List.prefix_rfl)
      · exact .inr (h ▸ List.prefix_rfl)
  | dropped => exact h

theorem Stage.Allows.retired (h : s.Allows ms) (past : s.hasRetired = true) : .retired ∈ ms := by
  cases s with
  | judging => rcases h with h | h <;> simp [h]
  | reporting => rcases h with h | h <;> simp [h]
  | resubmitting => rcases h with h | h <;> simp [h, shortItinerary, longItinerary]
  | home => rcases h with h | h <;> simp [h, shortItinerary, longItinerary]
  | _ => cases past

theorem Stage.allows_of_isConnecting (h : s.isConnecting = true) : s.Allows ms ↔ ms = [] := by
  cases s <;> first | rfl | cases h

theorem Stage.allows_of_isLinked (h : s.isLinked = true) : s.Allows ms ↔ ms = [.opened] := by
  cases s <;> first | rfl | cases h

/-! ## What a move shows -/

/-- Where the socket stays as it is, only the stages tell something. -/
theorem mark?_of_socket (same : t'.socketOpen = t.socketOpen) :
    t.mark? t' = t.stage.mark? t'.stage := by
  unfold mark?
  rw [same]
  cases t.socketOpen <;> rfl

theorem mark?_standing (t : Trip) (s : Stage) : t.mark? (t.standing s) = t.stage.mark? s :=
  mark?_of_socket rfl

/-- Nothing is seen of a trip that stays where it is. -/
theorem mark?_self (t : Trip) : t.mark? t = none := by
  rw [mark?_of_socket rfl]
  cases t.stage <;> rfl

theorem Stage.mark?_of_isUnderWay (underWay : s.isUnderWay = true) (s' : Stage) :
    s.mark? s' = none := by
  cases s <;> first | rfl | cases underWay

theorem Stage.mark?_dropped (s : Stage) : s.mark? .dropped = none := by
  cases s <;> rfl

theorem Stage.mark?_ne_opened (s s' : Stage) : s.mark? s' ≠ some .opened := by
  unfold Stage.mark?
  split <;> simp

/-- A name is given back between two stages that stand for it, with the socket as it was. -/
theorem stages_of_retired (seen : t.mark? t' = some .retired) :
    (∃ E, t.stage = .retiring E) ∧ ∃ E, t'.stage = .judging E := by
  have stages : t.stage.mark? t'.stage = some .retired := by
    unfold mark? at seen
    split at seen
    · cases seen
    · cases seen
    · exact seen
  unfold Stage.mark? at stages
  split at stages
  · rename_i E E' stage stage'
    exact ⟨⟨E, stage⟩, E', stage'⟩
  all_goals cases stages

namespace Shows

theorem start : start.Shows [] :=
  ⟨rfl, by simp [Trip.start], by simp [Trip.start]⟩

/-- A move under way is seen as the trip behind it shows. -/
theorem move? (h : t.Shows ms) (moved : t.move? k mv = some t') :
    t'.Shows (ms ++ (t.mark? t').toList) := by
  have underWay := isUnderWay_of_move? moved
  rcases opens_or_keeps moved with ⟨connecting, stage, socket, channel⟩ | ⟨socket, channel, back, on⟩
  · -- The socket was not open before, since nothing was seen of the trip.
    obtain rfl := (Stage.allows_of_isConnecting connecting).1 h.stage
    have before : t.socketOpen = false := by simpa using h.socket
    have seen : t.mark? t' = some .opened := by simp [mark?, before, socket]
    rw [seen]
    exact ⟨by rw [stage]; rfl, by simp [channel], by simp [socket]⟩
  · have unseen : t.mark? t' = none := by
      rw [mark?_of_socket socket, Stage.mark?_of_isUnderWay underWay]
    rw [unseen, Option.toList_none, List.append_nil]
    refine ⟨?_, by rw [channel, h.channel], by rw [socket, h.socket]⟩
    rcases move?_cases moved with ⟨further, -⟩ | ⟨E, stage, -⟩
    · rcases Bool.or_eq_true _ _ ▸ further with connecting | linked
      · rw [Stage.allows_of_isConnecting connecting]
        exact (Stage.allows_of_isConnecting (back connecting)).1 h.stage
      · rw [Stage.allows_of_isLinked linked]
        exact (Stage.allows_of_isLinked (on linked)).1 h.stage
    · rw [stage]
      rcases Bool.or_eq_true _ _ ▸ underWay with connecting | linked
      · exact .inl ((Stage.allows_of_isConnecting connecting).1 h.stage)
      · exact .inr ((Stage.allows_of_isLinked linked).1 h.stage)

/-- A trip whose ending is known closes its socket, if it had opened one. -/
theorem close (h : t.Shows ms) (stage : t.stage = .closing E)
    (behind : t' = { t with stage := .retiring E, socketOpen := false }) :
    t'.Shows (ms ++ (t.mark? t').toList) := by
  subst behind
  have allows := h.stage
  rw [stage] at allows
  rcases allows with rfl | rfl
  · have before : t.socketOpen = false := by simpa using h.socket
    rw [mark?_of_socket before.symm, stage]
    exact ⟨.inl rfl, by simpa [Stage.mark?] using h.channel, by simp [Stage.mark?]⟩
  · have before : t.socketOpen = true := h.socket.2 rfl
    simp only [mark?, before]
    exact ⟨.inr rfl, by simpa using h.channel, by simp⟩

/-- A trip that was dropped closed its socket, if it had one. -/
theorem drop (h : t.Shows ms) (behind : t' = { t with stage := .dropped, socketOpen := false }) :
    t'.Shows (ms ++ (t.mark? t').toList) := by
  subst behind
  cases socket : t.socketOpen with
  | true =>
      obtain rfl := h.socket.1 socket
      simp only [mark?, socket]
      exact ⟨.inr (by decide), by simpa using h.channel, by simp⟩
  | false =>
      have before : ms ≠ [.opened] := mt h.socket.2 (by simp [socket])
      rw [mark?_of_socket socket.symm, Stage.mark?_dropped, Option.toList_none, List.append_nil]
      exact ⟨h.stage.isPrefix, h.channel, by simp [before]⟩

/-- A trip goes on whose socket is closed for good. -/
theorem standing (h : t.Shows ms) (before : ms ≠ [.opened]) (allows : s.Allows ms')
    (behind : ms' ≠ [.opened]) (once : .opened ∈ ms' ↔ .opened ∈ ms) : (t.standing s).Shows ms' where
  stage := allows
  channel := by rw [once, ← h.channel, Trip.standing]
  socket := by rw [Trip.standing, h.socket]; simp [before, behind]

/-- No socket is open behind the giving back of the name. -/
theorem socketOpen_of_retired (h : t.Shows ms) (retired : .retired ∈ ms) : t.socketOpen = false := by
  rw [← Bool.not_eq_true, h.socket]
  intro same
  simp [same] at retired

theorem onWire (h : t.Shows ms) (f : Wire → Wire) : (t.onWire f).Shows ms :=
  ⟨h.stage, by rw [Trip.onWire, Option.isSome_map, h.channel], h.socket⟩

end Shows

end Trip

namespace Client

/-! ## What is seen of a client -/

/-- What is seen of trip `j` when the client goes from `c` to `c'`. -/
def seen? (j : Nat) (c c' : Client) : Option Trip.Mark :=
  match c.trips[j]?, c'.trips[j]? with
  | some t, some t' => t.mark? t'
  | _, _ => none

/-- What an event tells of trip `j`. -/
def mark? (j : Nat) (c : Client) (e : Event) : Option Trip.Mark :=
  (c.step? e).bind (c.seen? j)

def submission? (c : Client) : Event → Option Submission
  | .submit s => some s
  | .step j =>
      match c.trips[j]?, c.desk.tickets[j]? with
      | some ⟨.resubmitting _ _ payload later, _, _⟩, some k =>
          some ⟨k.id, k.endpoint, payload, later⟩
      | _, _ => none
  | _ => none

def accepted? (c : Client) (e : Event) : Option Submission :=
  (c.submission? e).filter fun s => (c.submit s).2

variable {c c' : Client} {e : Event} {i j : Nat} {mv : Trip.Move} {t t' : Trip} {k : Ticket}

/-! ## Marks and submissions of a move -/

theorem mark?_of_step? (last : c.step? e = some c') (j : Nat) : c.mark? j e = c.seen? j c' := by
  rw [mark?, last, Option.bind_some]

theorem seen?_eq_none (still : ∀ t t', c.trips[j]? = some t → c'.trips[j]? = some t' →
    t.mark? t' = none) : c.seen? j c' = none := by
  unfold seen?
  split
  · rename_i t t' trip trip'
    exact still t t' trip trip'
  · rfl

/-- Nothing is seen of trips that stay where they are. -/
theorem seen?_of_trips (same : c'.trips = c.trips) (j : Nat) : c.seen? j c' = none := by
  refine seen?_eq_none ?_
  intro t t' trip trip'
  rw [same, trip] at trip'
  cases trip'
  exact t.mark?_self

/-- When one trip goes on, it is all that something may be seen of. -/
theorem seen?_of_set (c' : Client) (trips : c'.trips = c.trips.set j t')
    (trip : c.trips[j]? = some t) (i : Nat) :
    c.seen? i c' = if j = i then t.mark? t' else none := by
  by_cases same : j = i
  · subst same
    have within := (List.getElem?_eq_some_iff.1 trip).1
    simp only [seen?, trips, trip, List.getElem?_set_self within, if_true]
  · rw [if_neg same]
    refine seen?_eq_none ?_
    intro u u' before behind
    rw [trips, List.getElem?_set_ne same, before] at behind
    cases behind
    exact u.mark?_self

theorem seen?_submit (s : Submission) (j : Nat) : c.seen? j (c.submit s).1 = none := by
  refine seen?_eq_none ?_
  intro t t' trip trip'
  rcases trip_of_submit trip' with old | ⟨beyond, -⟩
  · cases trip.symm.trans old
    exact t.mark?_self
  · exact absurd (List.getElem?_eq_some_iff.1 trip).1 (Nat.not_lt.2 beyond)

/-- A submission leaves the trips on their ways. -/
theorem Runs.submit (runs : Runs c j t k) (s : Submission) : Runs (c.submit s).1 j t k := by
  cases free : c.desk.active.insert? s.id c.trips.length with
  | none => simpa [submit_of_taken free] using runs
  | some r =>
      rw [submit_of_insert? free]
      rcases runs with ⟨trip, ticket, live⟩
      have inTrips := (List.getElem?_eq_some_iff.1 trip).1
      have inTickets := (List.getElem?_eq_some_iff.1 ticket).1
      have inJobs := (List.getElem?_eq_some_iff.1 live).1
      constructor
      · simpa [Client.enroll, List.getElem?_append_left inTrips] using trip
      · simpa [Client.enroll, Desk.issue, List.getElem?_append_left inTickets] using ticket
      · simpa [Client.enroll, List.getElem?_append_left inJobs] using live

theorem accepted?_submit (s : Submission) :
    c.accepted? (.submit s) = if (c.submit s).2 then some s else none := by
  simp [accepted?, submission?, Option.filter]

theorem accepted?_of_trip? (of : e.trip? = some (j, mv)) (trip : c.trips[j]? = some t)
    (elsewhere : ∀ o inUse payload later, t.stage ≠ .resubmitting o inUse payload later) :
    c.accepted? e = none := by
  have nothing : c.submission? e = none := by
    cases e with
    | step i =>
        cases of
        simp only [submission?, trip]
        split
        · rename_i h _
          cases h
          exact absurd rfl (elsewhere _ _ _ _)
        · rfl
    | noSocket => rfl
    | connect => rfl
    | _ => cases of
  simp [accepted?, nothing]

theorem accepted?_of_resubmitting {o : Outcome} {inUse : Bool} {payload : Bytes}
    {later : List Bytes} (runs : Runs c j t k)
    (stage : t.stage = .resubmitting o inUse payload later) :
    c.accepted? (.step j) = if (c.submit ⟨k.id, k.endpoint, payload, later⟩).2 then
      some ⟨k.id, k.endpoint, payload, later⟩ else none := by
  rcases t with ⟨_, channel, socketOpen⟩
  cases stage
  simp [accepted?, submission?, runs.trip, runs.ticket, Option.filter]

/-- A trip that comes home behind the submission of its own callback is not seen once more. -/
theorem seen?_of_resubmitting {s : Submission} {o : Outcome} {inUse : Bool} {payload : Bytes}
    {later : List Bytes} (c' : Client) (trip : c.trips[j]? = some t)
    (stage : t.stage = .resubmitting o inUse payload later)
    (trips : c'.trips = ((c.submit s).1.setTrip j (t.standing .home)).trips) (i : Nat) :
    c.seen? i c' = none := by
  refine seen?_eq_none ?_
  intro u u' before behind
  rw [trips] at behind
  rcases trip_of_setTrip behind with ⟨rfl, rfl⟩ | ⟨-, still⟩
  · cases trip.symm.trans before
    rw [Trip.mark?_standing, stage]
    rfl
  · have unseen := seen?_submit (c := c) s i
    simpa only [seen?, before, still] using unseen

end Client
end LineExchange
