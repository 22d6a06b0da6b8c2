import LineExchange.Proofs.Call.Link
import LineExchange.Proofs.Client.Ending

/-!
# Client side — a trip whose connection fails at nothing

This file follows one trip from the submission to the report, on a connection that fails at nothing
and brings the bytes of one line.  It defines:

* `Trip.OnCourse` — what is known of the trip at each of its stages;
* `Trip.left` — how much the trip has still to do, so that every step leaves less;
* `Trip.Idles` — the trip awaits a piece and none is there;
* `Client.Solo` — a client with this trip and no other;
* `Call.Calling` — a client with one request, whose trip is on its course;
* `Call.Furthers` — an event that leaves the client less to do.

A trip on its course that does not idle goes on, and stays on its course (`OnCourse.goesOn`); and
every event of the client furthers the call or changes nothing (`Calling.enqueue_or_rests`,
`Calling.connect_or_rests`, `Calling.step_or_rests`), but that something comes (`Calling.arrive`).
-/

namespace LineExchange

namespace Trip

/-- How much is to be done at a stage and behind it, when the payload has `size` bytes and the
stream to be connected has a script of `script` writes. -/
def Stage.left (size script : Nat) : Stage → Nat
  | .connecting _ wait => 6 * size + script + 14 + wait.left
  | .connected => 6 * size + 13
  -- Each byte that is left to write weighs more than it will weigh on its way.
  | .writing rest => 6 * rest.length + 12
  | .written => 11
  | .searching => 9
  | .awaiting wait => 6 + wait.left
  | .closing _ => 5
  | .retiring _ => 4
  | .judging _ => 3
  | .reporting _ | .resubmitting .. => 2
  | .home => 1
  | .dropped => 0

def left (size script : Nat) (t : Trip) : Nat :=
  t.stage.left size script + match t.channel with
    | some c => c.wire.left
    | none => 0

/-- What is known of a trip with the payload `payload` to which have come the first `m` bytes of
`answer`, and the end behind them if `ended`. -/
def OnCourse (payload answer : Bytes) (m : Nat) (ended : Bool) (t : Trip) : Prop :=
  match t.stage, t.channel with
  | .connecting s _, none => s = .first ∧ m = 0 ∧ ended = false
  | .connected, some c => c.Receiving answer m ended ∧ c.wire.sent = []
  | .writing rest, some c => c.Receiving answer m ended ∧ c.wire.sent ++ rest = payload
  | .written, some c | .searching, some c => c.Receiving answer m ended ∧ c.wire.sent = payload
  | .awaiting _, some c =>
      c.Receiving answer m ended ∧ c.wire.sent = payload ∧ Line.delimiter ∉ c.inbox.bytes
  | .closing E, some c | .retiring E, some c | .judging E, some c =>
      E = .text (responseText answer) ∧ c.wire.sent = payload
  | .reporting o, some c => o = .response (responseText answer) ∧ c.wire.sent = payload
  | .home, some c => c.wire.sent = payload
  | _, _ => False

def Idles (t : Trip) : Prop :=
  ∃ wait c, t.stage = .awaiting wait ∧ t.channel = some c ∧ c.wire.arrivals = []

variable {payload answer : Bytes} {m script : Nat} {ended : Bool} {t : Trip} {k : Ticket}

theorem OnCourse.sent_isPrefix (h : t.OnCourse payload answer m ended) : t.sent <+: payload := by
  rcases t with ⟨stage, channel, socketOpen⟩
  cases channel with
  | none => exact List.nil_prefix
  | some c =>
      have all (same : c.wire.sent = payload) : c.wire.sent <+: payload := same ▸ List.prefix_rfl
      cases stage with
      | connected =>
          show c.wire.sent <+: payload
          rw [h.2]
          exact List.nil_prefix
      | writing rest => exact ⟨rest, h.2⟩
      | written => exact all h.2
      | searching => exact all h.2
      | awaiting => exact all h.2.1
      | closing => exact all h.2
      | retiring => exact all h.2
      | judging => exact all h.2
      | reporting => exact all h.2
      | home => exact all h
      | connecting => exact h.elim
      | resubmitting => exact h.elim
      | dropped => exact h.elim

/-- A trip that is connecting finds no stream yet, or it has one from now on. -/
theorem OnCourse.connect {s : Signal} {wait : Wait} {socketOpen : Bool}
    (version : k.latch.version = 0) (unraised : k.latch.raised = false)
    (h : OnCourse payload answer m ended ⟨.connecting s wait, none, socketOpen⟩)
    (up : List Uptake) (gentle : ∀ u ∈ up, u.IsGentle) :
    (∃ wait', Trip.connect k none ⟨.connecting s wait, none, socketOpen⟩ =
        some ⟨.connecting s wait', none, socketOpen⟩ ∧ (wait' = wait ∨ wait'.left < wait.left)) ∧
      ∃ c : Channel,
        Trip.connect k (some (.ok ⟨[], up, [], []⟩)) ⟨.connecting s wait, none, socketOpen⟩ =
          some ⟨.connected, some c, true⟩ ∧ c.wire = ⟨[], up, [], []⟩ ∧
          OnCourse payload answer m ended ⟨.connected, some c, true⟩ := by
  rcases h with ⟨rfl, rfl, rfl⟩
  rcases Signal.poll_unwritten version unraised wait with ⟨wait', polled, settles⟩
  refine ⟨⟨wait', by simp [Trip.connect, polled, Trip.standing], settles⟩,
    .ofWire ⟨[], up, [], []⟩ .first, by simp [Trip.connect, polled], rfl, ?_, rfl⟩
  exact Channel.Receiving.ofWire answer ⟨gentle, rfl⟩ rfl

/-- A step of the trip on its connection: it stays on its course and has less to do, where what it
sends weighs less than what it had to send; or it idles. -/
def GoesOn (k : Ticket) (answer : Bytes) (m : Nat) (ended : Bool) (script : Nat) (t : Trip) :
    Prop :=
  ∃ t', t.step k = some t' ∧ t'.OnCourse k.payload answer m ended ∧ t'.stage ≠ .home ∧
    t'.channel.isSome = true ∧ t.sent.length ≤ t'.sent.length ∧
    (t'.left k.payload.length script + 5 * t'.sent.length <
        t.left k.payload.length script + 5 * t.sent.length ∨ t' = t ∧ t.Idles)

variable {c : Channel} {socketOpen : Bool}

theorem goesOn_of_writing {rest : Bytes}
    (h : OnCourse k.payload answer m ended ⟨.writing rest, some c, socketOpen⟩) :
    GoesOn k answer m ended script ⟨.writing rest, some c, socketOpen⟩ := by
  rcases h with ⟨receiving, sent⟩
  cases rest with
  | nil =>
      have flushed := receiving.gentle.flush
      refine ⟨⟨.written, some c, socketOpen⟩, ?_, ⟨receiving, by simpa using sent⟩, by simp, rfl,
        Nat.le_refl _, .inl ?_⟩
      · simp only [Trip.step, writeStep, flushed, standingOn]
      · simp only [left, Stage.left, Trip.sent, List.length_nil]
        omega
  | cons b bs =>
      -- Some of the bytes are taken, or the write waits, which uses up some of the script.
      rcases receiving.gentle.take b bs with
        ⟨w, gentle, arrivals, ⟨rest, taken, sent', shorter, script'⟩ | ⟨taken, sent', script'⟩⟩
      · have lengths := congrArg List.length sent'
        simp only [List.length_append, List.length_cons] at lengths
        refine ⟨⟨.writing rest, some { c with wire := w }, socketOpen⟩, ?_,
          ⟨receiving.onWire gentle arrivals, sent'.trans sent⟩, by simp, rfl, ?_, .inl ?_⟩
        · simp only [Trip.step, writeStep, taken, standingOn]
        · simp only [Trip.sent]
          omega
        · simp only [left, Stage.left, Trip.sent, Wire.left, List.length_cons, arrivals]
          omega
      · refine ⟨⟨.writing (b :: bs), some { c with wire := w }, socketOpen⟩, ?_,
          ⟨receiving.onWire gentle arrivals, sent' ▸ sent⟩, by simp, rfl, ?_, .inl ?_⟩
        · simp only [Trip.step, writeStep, taken, standingOn]
        · simp [Trip.sent, sent']
        · simp only [left, Stage.left, Trip.sent, Wire.left, List.length_cons, arrivals, sent']
          omega

theorem goesOn_of_searching (isLine : Line.IsLine Line.delimiter answer)
    (short : answer.length ≤ Inbox.capacity)
    (h : OnCourse k.payload answer m ended ⟨.searching, some c, socketOpen⟩) :
    GoesOn k answer m ended script ⟨.searching, some c, socketOpen⟩ := by
  rcases h with ⟨receiving, sent⟩
  -- What is found is the answer, for no shorter part of it is a line.
  rcases receiving.offer isLine short with ⟨c', wire, found | ⟨more, still, free⟩⟩
  · refine ⟨⟨.closing (.text (responseText answer)), some c', socketOpen⟩, ?_, ⟨rfl, wire ▸ sent⟩,
      by simp, rfl, ?_, .inl ?_⟩
    · simp only [Trip.step, searchStep, found, standingOn]
    · simp [Trip.sent, wire]
    · simp only [left, Stage.left, Trip.sent, wire]
      omega
  · refine ⟨⟨.awaiting .unpolled, some c', socketOpen⟩, ?_, ⟨still, wire ▸ sent, free⟩, by simp,
      rfl, ?_, .inl ?_⟩
    · simp only [Trip.step, searchStep, more, standingOn]
    · simp [Trip.sent, wire]
    · simp only [left, Stage.left, Trip.sent, wire, Wait.left]
      omega

theorem goesOn_of_awaiting {wait : Wait} (version : k.latch.version = 0)
    (unraised : k.latch.raised = false) (isLine : Line.IsLine Line.delimiter answer)
    (h : OnCourse k.payload answer m ended ⟨.awaiting wait, some c, socketOpen⟩) :
    GoesOn k answer m ended script ⟨.awaiting wait, some c, socketOpen⟩ := by
  rcases h with ⟨receiving, sent, free⟩
  rcases receiving.await wait isLine free version unraised with
    ⟨nothing, wait', pending, settles⟩ | ⟨c', arrived, still, wire, hne⟩
  · refine ⟨⟨.awaiting wait', some c, socketOpen⟩, ?_, ⟨receiving, sent, free⟩, by simp, rfl,
      Nat.le_refl _, ?_⟩
    · simp only [Trip.step, awaitStep, pending, standingOn]
    · rcases settles with rfl | less
      · exact .inr ⟨rfl, _, c, rfl, rfl, nothing⟩
      · left
        simp only [left, Stage.left, Trip.sent]
        omega
  · have sent' : c'.wire.sent = c.wire.sent := by rw [wire]
    refine ⟨⟨.searching, some c', socketOpen⟩, ?_, ⟨still, sent' ▸ sent⟩, by simp, rfl, ?_, .inl ?_⟩
    · simp only [Trip.step, awaitStep, arrived, standingOn]
    · simp [Trip.sent, sent']
    · have fewer := List.length_pos_iff.2 hne
      simp only [left, Stage.left, Trip.sent, Wire.left, wire, List.length_tail]
      omega

/-- A trip on its connection that does not idle goes on, and has less to do. -/
theorem OnCourse.goesOn (script : Nat) (flag : k.cancelled = false)
    (version : k.latch.version = 0) (unraised : k.latch.raised = false)
    (isLine : Line.IsLine Line.delimiter answer) (short : answer.length ≤ Inbox.capacity)
    (h : t.OnCourse k.payload answer m ended) (linked : t.stage.isLinked = true) :
    t.GoesOn k answer m ended script := by
  rcases t with ⟨stage, channel, socketOpen⟩
  cases channel with
  | none => cases stage <;> first | exact h.elim | cases linked
  | some c =>
      cases stage with
      | connected =>
          rcases h with ⟨receiving, sent⟩
          refine ⟨⟨.writing k.payload, some c, socketOpen⟩, ?_, ⟨receiving, by simp [sent]⟩, by simp,
            rfl, Nat.le_refl _, .inl ?_⟩
          · simp [Trip.step, checkpoint, flag, standing]
          · simp only [left, Stage.left, Trip.sent]
            omega
      | writing rest => exact goesOn_of_writing h
      | written =>
          refine ⟨⟨.searching, some c, socketOpen⟩, ?_, h, by simp, rfl, Nat.le_refl _, .inl ?_⟩
          · simp [Trip.step, checkpoint, flag, standing]
          · simp only [left, Stage.left, Trip.sent]
            omega
      | searching => exact goesOn_of_searching isLine short h
      | awaiting wait => exact goesOn_of_awaiting version unraised isLine h
      | _ => cases linked

/-- What comes on the stream leaves the trip where it is. -/
theorem OnCourse.onWire {f : Wire → Wire} {m' : Nat} {ended' : Bool}
    (h : t.OnCourse payload answer m ended) (sent : ∀ w, (f w).sent = w.sent)
    (comes : ∀ c : Channel, c.Receiving answer m ended →
      Channel.Receiving answer m' ended' { c with wire := f c.wire })
    (connected : t.channel.isSome = true) : (t.onWire f).OnCourse payload answer m' ended' := by
  rcases t with ⟨stage, channel, socketOpen⟩
  cases channel with
  | none => cases connected
  | some c =>
      have same := sent c.wire
      cases stage with
      | connected => exact ⟨comes c h.1, same.trans h.2⟩
      | writing rest => exact ⟨comes c h.1, same.symm ▸ h.2⟩
      | written => exact ⟨comes c h.1, same.trans h.2⟩
      | searching => exact ⟨comes c h.1, same.trans h.2⟩
      | awaiting => exact ⟨comes c h.1, same.trans h.2.1, h.2.2⟩
      | closing => exact ⟨h.1, same.trans h.2⟩
      | retiring => exact ⟨h.1, same.trans h.2⟩
      | judging => exact ⟨h.1, same.trans h.2⟩
      | reporting => exact ⟨h.1, same.trans h.2⟩
      | home => exact same.trans h
      | connecting => exact h.elim
      | resubmitting => exact h.elim
      | dropped => exact h.elim

end Trip

/-! ## The client of a call -/

/-- How much a job has still to go through when its trip has done its part. -/
def Job.left : Job → Nat
  | .counted => 3
  | .live => 2
  | .leaving _ => 1
  | .done | .failed | .dropped => 0

namespace Client

/-- A client with one request, whose callback submits nothing, on a crew that nobody closes. -/
structure Solo (k : Ticket) (t : Trip) (job : Job) (reports : List Report) (c : Client) :
    Prop where
  tickets : c.desk.tickets = [k]
  trips : c.trips = [t]
  again : c.again = [[]]
  jobs : c.crew.jobs = [job]
  closing : c.crew.closing = .staffed
  reports : c.reports = reports

namespace Solo

variable {k : Ticket} {t t' : Trip} {job : Job} {rs : List Report} {c : Client}

theorem setTrip (h : Solo k t job rs c) (t' : Trip) : Solo k t' job rs (c.setTrip 0 t') := by
  rcases h with ⟨tickets, trips, again, jobs, closing, reports⟩
  exact ⟨tickets, by simp [Client.setTrip, trips], again, jobs, closing, reports⟩

theorem setTrip_self (h : Solo k t job rs c) : c.setTrip 0 t = c := by
  simp only [Client.setTrip, h.trips, List.set_cons_zero]
  rw [← h.trips]

/-- The trip takes steps while its job is on the loop. -/
theorem running?_eq (h : Solo k t job rs c) :
    c.running? 0 = if job = .live then some t else none := by
  cases job <;> simp [Client.running?, Crew.step?, h.jobs, h.closing, h.trips]

theorem connect (h : Solo k t .live rs c) (r : Option (Except IoError Wire)) :
    c.step? (.connect 0 r) = (t.connect k r).map (c.setTrip 0) := by
  simp [Client.step?, h.running?_eq, h.tickets]

/-- A step of a job that is on the loop is a step of its trip. -/
theorem step (h : Solo k t .live rs c) (out : t.stage ≠ .home) :
    c.step? (.step 0) = c.tripStep 0 k t := by
  rcases t with ⟨stage, channel, socketOpen⟩
  cases stage <;>
    first
    | exact absurd rfl out
    | simp [Client.step?, h.running?_eq, h.trips, h.tickets]

theorem step_of_isLinked (h : Solo k t .live rs c) (linked : t.stage.isLinked = true) :
    c.step? (.step 0) = (t.step k).map (c.setTrip 0) := by
  have out : t.stage ≠ .home := by
    intro home
    rw [home] at linked
    cases linked
  rw [h.step out]
  rcases t with ⟨stage, channel, socketOpen⟩
  cases stage <;> first | rfl | cases linked

theorem enqueue (h : Solo k t .counted rs c) :
    ∃ c', c.step? (.enqueue 0) = some c' ∧ Solo k t .live rs c' := by
  rcases h with ⟨tickets, trips, again, jobs, closing, reports⟩
  refine ⟨{ c with crew := { c.crew with jobs := [.live] } }, ?_,
    ⟨tickets, trips, again, rfl, closing, reports⟩⟩
  simp [Client.step?, Client.onCrew, Crew.step?, Crew.isUp, jobs, closing]

theorem leave (h : Solo k t (.leaving false) rs c) (home : t.stage = .home) :
    ∃ c', c.step? (.step 0) = some c' ∧ Solo k t .done rs c' := by
  rcases t with ⟨stage, channel, socketOpen⟩
  cases home
  rcases h with ⟨tickets, trips, again, jobs, closing, reports⟩
  refine ⟨{ c with crew := c.crew.uncount 0 .done }, ?_,
    ⟨tickets, trips, again, by simp [Crew.uncount, jobs], closing, reports⟩⟩
  simp [Client.step?, Client.onCrew, Crew.step?, jobs, trips]

/-- The callback is called and its job takes its last step. -/
theorem report {o : Outcome} (h : Solo k t .live rs c) (stage : t.stage = .reporting o) :
    ∃ c', c.step? (.step 0) = some c' ∧
      Solo k (t.standing .home) (.leaving false) (rs ++ [⟨0, k.id, o, none⟩]) c' := by
  rw [h.step (by simp [stage])]
  rcases h with ⟨tickets, trips, again, jobs, closing, reports⟩
  refine ⟨{ c.setTrip 0 (t.standing .home) with
    reports := c.reports ++ [⟨0, k.id, o, none⟩]
    crew := { c.crew with jobs := [.leaving false] } }, ?_,
    ⟨tickets, by simp [Client.setTrip, trips], again, rfl, closing, by simp [reports]⟩⟩
  simp [Client.tripStep, stage, again, Client.report, Client.onCrew, Client.setTrip, Crew.step?,
    jobs, closing]

end Solo
end Client

/-! ## The course of a call at its client -/

/-- Where the job of a trip may stand. -/
def Trip.Fits (t : Trip) : Job → Prop
  | .counted => t = .start
  | .live => t.stage ≠ .home
  | .leaving failed => failed = false ∧ t.stage = .home
  | .done => t.stage = .home
  | .failed | .dropped => False

namespace Call

def report (a : Call) : Report :=
  ⟨0, a.id, .response (Trip.responseText a.answer), none⟩

def reportsAt (a : Call) (t : Trip) : List Report :=
  if t.stage = .home then [a.report] else []

/-- How much the client has still to do; what it sent weighs less than what it had to send. -/
def clientLeft (a : Call) (t : Trip) (job : Job) : Nat :=
  t.left a.payload.length a.up.length + job.left + 5 * t.sent.length

structure Calling (a : Call) (m : Nat) (ended : Bool) (t : Trip) (job : Job) (c : Client) :
    Prop where
  solo : c.Solo a.ticket t job (a.reportsAt t)
  course : t.OnCourse a.payload a.answer m ended
  fits : t.Fits job

def Furthers (a : Call) (m : Nat) (ended : Bool) (t : Trip) (job : Job) (c : Client)
    (e : Client.Event) : Prop :=
  ∃ c' t' job', c.step? e = some c' ∧ a.Calling m ended t' job' c' ∧
    t.sent.length ≤ t'.sent.length ∧ (t.channel.isSome = true → t'.channel.isSome = true) ∧
    a.clientLeft t' job' < a.clientLeft t job

namespace Calling

variable {a : Call} {m : Nat} {ended : Bool} {t : Trip} {job : Job} {c : Client}

theorem start (a : Call) : a.Calling 0 false .start .counted (Link.start a).client where
  solo := ⟨rfl, rfl, rfl, rfl, rfl, rfl⟩
  course := ⟨rfl, rfl, rfl⟩
  fits := rfl

theorem enqueue (h : a.Calling m ended t .counted c) :
    a.Furthers m ended t .counted c (.enqueue 0) := by
  obtain rfl : t = .start := h.fits
  rcases h.solo.enqueue with ⟨c', step, solo⟩
  refine ⟨c', .start, .live, step, ⟨solo, h.course, by simp [Trip.Fits, Trip.start]⟩,
    Nat.le_refl _, fun hne => hne, ?_⟩
  simp only [clientLeft, Job.left]
  omega

/-- The network has a connection for a trip that is connecting. -/
theorem connect (gentle : ∀ u ∈ a.up, u.IsGentle) (h : a.Calling m ended t .live c)
    (connecting : t.stage.isConnecting = true) :
    a.Furthers m ended t .live c (.connect 0 (some (.ok a.upstream))) ∧
      (a.Furthers m ended t .live c (.connect 0 none) ∨ c.step? (.connect 0 none) = some c) := by
  rcases h with ⟨solo, course, fits⟩
  rcases t with ⟨stage, channel, socketOpen⟩
  cases stage with
  | connecting s wait =>
      cases channel with
      | some => exact course.elim
      | none =>
          rcases course.connect (k := a.ticket) rfl rfl a.up gentle with
            ⟨⟨wait', waits, settles⟩, w, connects, wire, course'⟩
          refine ⟨?_, ?_⟩
          · refine ⟨c.setTrip 0 ⟨.connected, some w, true⟩, _, .live, ?_,
              ⟨solo.setTrip _, course', by simp [Trip.Fits]⟩, ?_, fun _ => rfl, ?_⟩
            · rw [solo.connect]
              exact congrArg (Option.map _) connects
            · simp [Trip.sent]
            · simp only [clientLeft, Trip.left, Trip.Stage.left, Trip.sent, wire, Wire.left,
                List.length_nil]
              omega
          · have step : c.step? (.connect 0 none) =
                some (c.setTrip 0 ⟨.connecting s wait', none, socketOpen⟩) := by
              rw [solo.connect, waits]
              rfl
            -- Only the first look at the latch changes how the trip waits.
            rcases settles with rfl | less
            · exact .inr (step.trans (congrArg some solo.setTrip_self))
            · refine .inl ⟨_, ⟨.connecting s wait', none, socketOpen⟩, .live, step,
                ⟨solo.setTrip _, course, by simp [Trip.Fits]⟩, Nat.le_refl _, fun hne => hne,
                ?_⟩
              simp only [clientLeft, Trip.left, Trip.Stage.left, Trip.sent]
              omega
  | _ => cases connecting

/-- A trip whose ending is known goes home, one step after the other. -/
theorem step_of_ended (h : a.Calling m ended t .live c) (notUnderWay : t.stage.isUnderWay = false) :
    a.Furthers m ended t .live c (.step 0) := by
  rcases h with ⟨solo, course, fits⟩
  have first := solo.step fits
  rcases t with ⟨stage, channel, socketOpen⟩
  cases channel with
  | none => cases stage <;> first | exact course.elim | cases notUnderWay
  | some w =>
      cases stage with
      | closing E =>
          refine ⟨_, ⟨.retiring E, some w, false⟩, .live, first,
            ⟨solo.setTrip _, course, by simp [Trip.Fits]⟩, Nat.le_refl _, fun hne => hne, ?_⟩
          simp only [clientLeft, Trip.left, Trip.Stage.left, Trip.sent]
          omega
      | retiring E =>
          have step := solo.setTrip ⟨.judging E, some w, socketOpen⟩
          refine ⟨_, ⟨.judging E, some w, socketOpen⟩, .live, first,
            ⟨⟨step.tickets, step.trips, step.again, step.jobs, step.closing, step.reports⟩, course,
              by simp [Trip.Fits]⟩, Nat.le_refl _, fun hne => hne, ?_⟩
          simp only [clientLeft, Trip.left, Trip.Stage.left, Trip.sent]
          omega
      | judging E =>
          rcases course with ⟨rfl, sent⟩
          refine ⟨_, ⟨.reporting (.response (Trip.responseText a.answer)), some w, socketOpen⟩, .live,
            first, ⟨solo.setTrip _, ⟨rfl, sent⟩, by simp [Trip.Fits]⟩, Nat.le_refl _,
            fun hne => hne, ?_⟩
          simp only [clientLeft, Trip.left, Trip.Stage.left, Trip.sent]
          omega
      | reporting o =>
          rcases course with ⟨rfl, sent⟩
          rcases solo.report rfl with ⟨c', step, solo'⟩
          refine ⟨c', ⟨.home, some w, socketOpen⟩, .leaving false, step, ⟨solo', sent, rfl, rfl⟩,
            Nat.le_refl _, fun hne => hne, ?_⟩
          simp only [clientLeft, Trip.left, Trip.Stage.left, Trip.sent, Job.left]
          omega
      | home => exact absurd rfl fits
      | resubmitting => exact course.elim
      | dropped => exact course.elim
      | _ => cases notUnderWay

/-- A trip that has a connection goes on, unless it idles. -/
theorem step (isLine : Line.IsLine Line.delimiter a.answer)
    (short : a.answer.length ≤ Inbox.capacity) (h : a.Calling m ended t .live c)
    (connected : t.stage.isConnecting = false) :
    a.Furthers m ended t .live c (.step 0) ∨ t.Idles ∧ c.step? (.step 0) = some c := by
  cases linked : t.stage.isLinked with
  | false =>
      left
      apply h.step_of_ended
      simp [Trip.Stage.isUnderWay, connected, linked]
  | true =>
      rcases h with ⟨solo, course, fits⟩
      have first := solo.step_of_isLinked linked
      rcases course.goesOn (k := a.ticket) a.up.length rfl rfl rfl isLine short linked with
        ⟨t', moved, course', out, hne, more, less | ⟨rfl, idles⟩⟩
      · rw [moved] at first
        -- The trip is not home, before the step or behind it.
        have before : a.reportsAt t = [] := if_neg fits
        have behind : a.reportsAt t' = [] := if_neg out
        refine .inl ⟨_, t', .live, first, ⟨?_, course', out⟩, more, fun _ => hne, ?_⟩
        · rw [behind, ← before]
          exact solo.setTrip t'
        · simp only [clientLeft]
          have size : a.ticket.payload = a.payload := rfl
          rw [size] at less
          omega
      · rw [moved] at first
        exact .inr ⟨idles, first.trans (congrArg some solo.setTrip_self)⟩

theorem leave (h : a.Calling m ended t (.leaving false) c) :
    a.Furthers m ended t (.leaving false) c (.step 0) := by
  rcases h with ⟨solo, course, fits⟩
  rcases solo.leave fits.2 with ⟨c', step, solo'⟩
  refine ⟨c', t, .done, step, ⟨solo', course, fits.2⟩, Nat.le_refl _, fun hne => hne, ?_⟩
  simp only [clientLeft, Job.left]
  omega

/-- The event cannot happen, or it changes nothing. -/
def Rests (c : Client) (e : Client.Event) : Prop :=
  ∀ c', c.step? e = some c' → c' = c

theorem enqueue_or_rests (h : a.Calling m ended t job c) :
    a.Furthers m ended t job c (.enqueue 0) ∨ Rests c (.enqueue 0) := by
  cases job with
  | counted => exact .inl h.enqueue
  | _ =>
      right
      intro c' step
      simp [Client.step?, Client.onCrew, Crew.step?, h.solo.jobs] at step

theorem connect_or_rests (gentle : ∀ u ∈ a.up, u.IsGentle) (h : a.Calling m ended t job c)
    (ready : Bool) :
    a.Furthers m ended t job c (.connect 0 (if ready then some (.ok a.upstream) else none)) ∨
      Rests c (.connect 0 (if ready then some (.ok a.upstream) else none)) := by
  by_cases live : job = .live
  · subst live
    cases connecting : t.stage.isConnecting with
    | true =>
        rcases h.connect gentle connecting with ⟨connects, waits | same⟩
        · cases ready
          · exact .inl waits
          · exact .inl connects
        · cases ready
          · exact .inr fun c' step => Option.some.inj (step.symm.trans same)
          · exact .inl connects
    | false =>
        right
        intro c' step
        rw [h.solo.connect] at step
        rcases t with ⟨stage, channel, socketOpen⟩
        cases stage with
        | connecting => cases connecting
        | _ => cases step
  · right
    intro c' step
    simp [Client.step?, h.solo.running?_eq, live] at step

theorem step_or_rests (isLine : Line.IsLine Line.delimiter a.answer)
    (short : a.answer.length ≤ Inbox.capacity) (h : a.Calling m ended t job c) :
    a.Furthers m ended t job c (.step 0) ∨ Rests c (.step 0) := by
  cases job with
  | counted =>
      right
      intro c' step
      obtain rfl : t = .start := h.fits
      -- Its job is counted but not yet with the loop, so it cannot go on.
      simp [Client.step?, h.solo.running?_eq, h.solo.trips, Trip.start] at step
  | live =>
      cases connecting : t.stage.isConnecting with
      | true =>
          right
          intro c' step
          rcases h with ⟨solo, course, fits⟩
          rw [solo.step fits] at step
          rcases t with ⟨stage, channel, socketOpen⟩
          cases stage with
          | connecting =>
              cases channel with
              | none => cases step
              | some => exact course.elim
          | _ => cases connecting
      | false =>
          rcases h.step isLine short connecting with furthers | ⟨-, same⟩
          · exact .inl furthers
          · exact .inr fun c' step => Option.some.inj (step.symm.trans same)
  | leaving failed =>
      obtain rfl : failed = false := h.fits.1
      exact .inl h.leave
  | done =>
      right
      intro c' step
      have home : t.stage = .home := h.fits
      rcases t with ⟨stage, channel, socketOpen⟩
      cases home
      simp [Client.step?, Client.onCrew, Crew.step?, h.solo.jobs, h.solo.trips] at step
  | failed => exact h.fits.elim
  | dropped => exact h.fits.elim

/-- Something comes on the client's stream; it weighs as one arrival. -/
theorem arrive {arrival : Arrival} {m' : Nat} {ended' : Bool} (h : a.Calling m ended t job c)
    (comes : ∀ w : Channel, w.Receiving a.answer m ended →
      Channel.Receiving a.answer m' ended' { w with wire := w.wire.expect arrival })
    (connected : t.channel.isSome = true) :
    ∃ c' t', c.step? (.arrive 0 arrival) = some c' ∧ a.Calling m' ended' t' job c' ∧
      t'.sent = t.sent ∧ t'.channel.isSome = true ∧
      a.clientLeft t' job = a.clientLeft t job + 4 := by
  rcases h with ⟨solo, course, fits⟩
  have arrived : c.step? (.arrive 0 arrival) = some (c.setTrip 0 (t.onWire (.expect arrival))) := by
    simp [Client.step?, solo.trips]
  refine ⟨_, t.onWire (.expect arrival), arrived,
    ⟨solo.setTrip _, course.onWire (fun _ => rfl) comes connected, ?_⟩, ?_⟩
  · cases job with
    | counted =>
        obtain rfl : t = .start := fits
        cases connected
    | _ => exact fits
  · rcases t with ⟨stage, _ | w, socketOpen⟩
    · cases connected
    · refine ⟨rfl, rfl, ?_⟩
      simp only [clientLeft, Trip.left, Trip.onWire, Trip.sent, Option.map_some, Wire.left,
        Wire.expect, List.length_append, List.length_singleton]
      omega

end Calling
end Call
end LineExchange
