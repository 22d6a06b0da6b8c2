import LineExchange.Proofs.Channel.Posting
import LineExchange.Proofs.Client.Cancellation

/-!
# Sending — what a trip has sent of its payload

A cancellation may come while a payload is half written, and is looked at only before the first
write and behind the last.  This file defines:

* `Trip.Stage.isEarly` — the stages before the first write;
* `Trip.Stage.Sends` — what the stage of a trip says about the bytes that it sent;
* `Trip.Leaves` — what the end of a trip says about them, by the stage at which it came;
* `Client.EndsFrom`, `Client.WriteFails` — an event makes an end of a trip at a stage, and a write
  or a flush of it fails;
* `Client.Stays` — an event leaves a trip where it was, or past the end of its steps.

A move goes on with the payload where the last one stopped, and behind its end a trip sends nothing
more; so only a failure of its own writing cuts a payload short
(`Client.payload_cut_by_failure_only`).
-/

namespace LineExchange

/-- A failure is reported by the end that it made, and by no other. -/
theorem Ending.outcome_eq_failed_iff {E : Ending} {flag : Bool} {e : RequestError}
    (cause : e ≠ .cancelled) : E.outcome flag = .failed e ↔ E = .failed e := by
  have other : RequestError.cancelled ≠ e := cause.symm
  cases E with
  | text t => cases flag <;> simp [outcome, other]
  | cancelled => simp [outcome, other]
  | failed e' => simp [outcome]

theorem Ending.eq_text_of_outcome {E : Ending} {flag : Bool} {text : String}
    (response : E.outcome flag = .response text) : E = .text text := by
  cases E with
  | text t =>
      cases flag with
      | false =>
          cases response
          rfl
      | true => cases response
  | cancelled => cases response
  | failed e => cases response

namespace Trip

/-! ## Stages and bytes -/

def Stage.isEarly : Stage → Bool
  | .connecting .. | .connected => true
  | _ => false

/-- What a trip has sent of its payload that stands at a stage. -/
def Stage.Sends (payload sent : Bytes) : Stage → Prop
  | .connecting .. | .connected => sent = []
  | .writing rest => sent ++ rest = payload
  | .written | .searching | .awaiting _ => sent = payload
  | _ => sent <+: payload

/-- What a trip has sent of its payload that was brought to the end `E` at stage `s`. -/
structure Leaves (payload sent : Bytes) (s : Stage) (E : Ending) : Prop where
  nothing : s.isEarly = true → sent = []
  all : s.isEarly = false → (∀ e, E ≠ .failed (.write e)) → sent = payload

/-- A connection that is made has sent nothing. -/
def Move.IsFresh (mv : Move) : Prop :=
  ∀ w, mv = .connect (some (.ok w)) → w.sent = []

variable {k : Ticket} {t t' : Trip} {mv : Move} {E : Ending} {payload sent : Bytes} {s : Stage}

theorem Stage.Sends.isPrefix (h : s.Sends payload sent) : sent <+: payload := by
  cases s with
  | connecting => exact h ▸ List.nil_prefix
  | connected => exact h ▸ List.nil_prefix
  | writing rest => exact ⟨rest, h⟩
  | written => exact h ▸ List.prefix_rfl
  | searching => exact h ▸ List.prefix_rfl
  | awaiting => exact h ▸ List.prefix_rfl
  | _ => exact h

/-- Behind the end of a trip its stage says no more than that the payload was begun. -/
theorem Stage.sends_of_not_isUnderWay (past : s.isUnderWay = false) :
    s.Sends payload sent ↔ sent <+: payload := by
  cases s <;> first | rfl | cases past

/-! ## One move -/

theorem sent_of_channel {c : Channel} (channel : t.channel = some c) : t.sent = c.wire.sent := by
  rw [sent, channel]

/-- A write goes on where the last one stopped. -/
theorem sends_writeStep {rest : Bytes} {c : Channel} (h : c.wire.sent ++ rest = payload) :
    (writeStep rest c).1.Sends payload (writeStep rest c).2.sent := by
  cases rest with
  | nil =>
      have same := c.wire.sent_flush
      rw [List.append_nil] at h
      cases flushed : c.wire.flush with
      | mk w failure =>
          rw [flushed] at same
          have whole : w.sent = payload := same.trans h
          cases failure with
          | none =>
              simp only [writeStep, flushed]
              exact whole
          | some e => simp [writeStep, flushed, Stage.Sends, whole]
  | cons b bs =>
      cases taken : c.wire.take (b :: bs) with
      | mk w r =>
          -- Whatever a write comes to, what it took is sent, and the rest is left.
          have goesOn := (Wire.sent_append_of_take taken).trans h
          cases r with
          | left rest =>
              simp only [writeStep, taken]
              exact goesOn
          | blocked =>
              simp only [writeStep, taken]
              exact goesOn
          | failed e =>
              have begun : w.sent <+: payload := ⟨b :: bs, goesOn⟩
              simp only [writeStep, taken]
              exact begun

/-- A look at the flag lets the trip go on or makes an end of it. -/
theorem sends_checkpoint (h : s.Sends k.payload sent) : (checkpoint k s).Sends k.payload sent := by
  unfold checkpoint
  split
  · exact h.isPrefix
  · exact h

theorem sends_searchStep {c : Channel} (h : c.wire.sent = payload) :
    (searchStep c).1.Sends payload (searchStep c).2.wire.sent ∧
      (searchStep c).2.wire.sent = c.wire.sent := by
  unfold searchStep
  split <;> rename_i offered
  · have same := congrArg (·.1.wire.sent) offered
    exact ⟨same ▸ h ▸ List.prefix_rfl, same.symm⟩
  · have same := congrArg (·.1.wire.sent) offered
    exact ⟨same ▸ h ▸ List.prefix_rfl, same.symm⟩
  · have same := congrArg (·.1.wire.sent) offered
    exact ⟨same ▸ h, same.symm⟩

theorem sends_awaitStep (k : Ticket) (wait : Wait) {c : Channel} (h : c.wire.sent = payload) :
    (awaitStep k wait c).1.Sends payload (awaitStep k wait c).2.wire.sent ∧
      (awaitStep k wait c).2.wire.sent = c.wire.sent := by
  have same := c.sent_await k.latch wait
  unfold awaitStep
  split <;> rename_i awaited <;> rw [awaited] at same
  · exact ⟨same.trans h, same⟩
  · exact ⟨same.trans h, same⟩
  · have whole := same.trans h
    exact ⟨whole ▸ List.prefix_rfl, same⟩

/-- A move leaves a trip with the bytes sent that its stage says, and only writing sends. -/
theorem sends_of_move? (moved : t.move? k mv = some t') (fresh : mv.IsFresh)
    (h : t.stage.Sends k.payload t.sent) :
    t'.stage.Sends k.payload t'.sent ∧
      ((∀ rest, t.stage ≠ .writing rest) → t'.sent = t.sent) := by
  cases mv with
  | refuse e =>
      simp only [move?, refuse] at moved
      split at moved <;> cases moved
      exact ⟨h.isPrefix, fun _ => rfl⟩
  | connect result =>
      simp only [move?, connect] at moved
      split at moved
      · rename_i s wait hstage
        split at moved
        · cases moved
          exact ⟨h.isPrefix, fun _ => rfl⟩
        · rw [hstage] at h
          split at moved
          · cases moved
            exact ⟨h, fun _ => rfl⟩
          · cases moved
            exact ⟨h.isPrefix, fun _ => rfl⟩
          · rename_i w
            cases moved
            -- A stream that is new has sent nothing, and neither had the trip without one.
            have hnone : t.sent = [] := h
            have nothing : w.sent = [] := fresh w rfl
            exact ⟨nothing, fun _ => nothing.trans hnone.symm⟩
      · cases moved
  | step =>
      simp only [move?, step] at moved
      split at moved
      · cases moved
      · rename_i c channel
        have same := sent_of_channel channel
        split at moved
        · rename_i hstage
          cases moved
          rw [hstage] at h
          have begin : (Stage.writing k.payload).Sends k.payload t.sent := by
            have nothing : t.sent = [] := h
            rw [nothing]
            exact List.nil_append k.payload
          exact ⟨sends_checkpoint begin, fun _ => rfl⟩
        · rename_i rest hstage
          cases moved
          rw [hstage, same] at h
          exact ⟨sends_writeStep h, fun other => absurd hstage (other rest)⟩
        · rename_i hstage
          cases moved
          rw [hstage] at h
          exact ⟨sends_checkpoint (s := .searching) h, fun _ => rfl⟩
        · rename_i hstage
          cases moved
          rw [hstage, same] at h
          have searched := sends_searchStep h
          exact ⟨searched.1, fun _ => searched.2.trans same.symm⟩
        · rename_i wait hstage
          cases moved
          rw [hstage, same] at h
          have awaited := sends_awaitStep k wait h
          exact ⟨awaited.1, fun _ => awaited.2.trans same.symm⟩
        · cases moved

/-- At its end a trip has sent what the stage says at which it came. -/
theorem EndsBy.leaves (ends : EndsBy k t mv E) (moved : t.move? k mv = some t') (fresh : mv.IsFresh)
    (h : t.stage.Sends k.payload t.sent) : Leaves k.payload t'.sent t.stage E := by
  have same := (sends_of_move? moved fresh h).2
  cases ends with
  | noSocket stage | raisedConnecting stage | unconnected stage =>
      rw [stage] at h same ⊢
      exact ⟨fun _ => (same nofun).trans h, nofun⟩
  | flagged stage =>
      rcases stage with stage | stage <;> rw [stage] at h same ⊢
      · exact ⟨fun _ => (same nofun).trans h, nofun⟩
      · exact ⟨nofun, fun _ _ => (same nofun).trans h⟩
  | unwritten _ stage | unflushed _ stage =>
      rw [stage]
      exact ⟨nofun, fun _ other => absurd rfl (other _)⟩
  | read _ stage | overfull _ stage | raisedReading _ stage | unread _ stage =>
      rw [stage] at h same ⊢
      exact ⟨nofun, fun _ _ => (same nofun).trans h⟩

/-- A trip has sent nothing or all at its end, unless writing failed. -/
theorem Leaves.nothing_or_all (h : Leaves payload sent s E) (other : ∀ e, E ≠ .failed (.write e)) :
    sent = [] ∨ sent = payload := by
  cases early : s.isEarly with
  | true => exact .inl (h.nothing early)
  | false => exact .inr (h.all early other)

/-- A trip that failed to connect has written nothing, and one that failed to read has written
all. -/
theorem EndsBy.isEarly_of_connect {e : IoError} (ends : EndsBy k t mv (.failed (.connect e))) :
    t.stage.isEarly = true := by
  cases ends with
  | noSocket stage | unconnected stage =>
      rw [stage]
      rfl

theorem EndsBy.not_isEarly (ends : EndsBy k t mv E) (cause : E ≠ .cancelled)
    (connected : ∀ e, E ≠ .failed (.connect e)) : t.stage.isEarly = false := by
  cases ends with
  | noSocket | unconnected => exact absurd rfl (connected _)
  | raisedConnecting | flagged | raisedReading => exact absurd rfl cause
  | unwritten _ stage | unflushed _ stage | read _ stage | overfull _ stage | unread _ stage =>
      rw [stage]
      rfl

end Trip

namespace Client

/-! ## Events -/

def EndsFrom (c : Client) (e : Event) (j : Nat) (s : Trip.Stage) (E : Ending) : Prop :=
  ∃ (mv : Trip.Move) (t : Trip) (k : Ticket), e.trip? = some (j, mv) ∧ Runs c j t k ∧
    t.stage = s ∧ Trip.EndsBy k t mv E

/-- A write of trip `j`, or the flush behind its last write, fails. -/
def WriteFails (c : Client) (e : Event) (j : Nat) (err : IoError) : Prop :=
  e = .step j ∧ ∃ (t : Trip) (k : Ticket) (d : Channel) (rest : Bytes), Runs c j t k ∧
    t.channel = some d ∧ t.stage = .writing rest ∧
    (rest ≠ [] ∧ (d.wire.take rest).2 = .failed err ∨ rest = [] ∧ d.wire.flush.2 = some err)

def Event.IsFresh (e : Event) : Prop :=
  ∀ j w, e = .connect j (some (.ok w)) → w.sent = []

variable {a : List Submission} {m : Nat → List Trip.Mark} {c c' : Client} {e : Event} {i j : Nat}
  {mv : Trip.Move} {t t' : Trip} {k : Ticket} {s : Trip.Stage} {E : Ending} {err : IoError}
  {came : Nat → Trip.Stage → Ending → Prop}

theorem Event.IsFresh.move (fresh : e.IsFresh) (of : e.trip? = some (j, mv)) : mv.IsFresh := by
  intro w same
  subst same
  cases e with
  | connect i result =>
      cases of
      exact fresh j w rfl
  | _ => cases of

theorem ends_iff_endsFrom : c.Ends e j E ↔ ∃ s, c.EndsFrom e j s E := by
  constructor
  · rintro ⟨mv, t, k, of, runs, ends⟩
    exact ⟨t.stage, mv, t, k, of, runs, rfl, ends⟩
  · rintro ⟨s, mv, t, k, of, runs, -, ends⟩
    exact ⟨mv, t, k, of, runs, ends⟩

/-- A trip ends by a failure of writing exactly when a write or a flush of it fails. -/
theorem ends_write_iff : c.Ends e j (.failed (.write err)) ↔ c.WriteFails e j err := by
  constructor
  · rintro ⟨mv, t, k, of, runs, ends⟩
    cases ends with
    | unwritten channel stage left fails =>
        have step : e = .step j := by cases e <;> cases of; rfl
        exact ⟨step, t, k, _, _, runs, channel, stage, .inl ⟨left, by rw [fails]⟩⟩
    | unflushed channel stage fails =>
        have step : e = .step j := by cases e <;> cases of; rfl
        exact ⟨step, t, k, _, _, runs, channel, stage, .inr ⟨rfl, by rw [fails]⟩⟩
  · rintro ⟨rfl, t, k, d, rest, runs, channel, stage, ⟨left, fails⟩ | ⟨rfl, fails⟩⟩
    · exact ⟨.step, t, k, rfl, runs, .unwritten channel stage left (Prod.ext rfl fails)⟩
    · exact ⟨.step, t, k, rfl, runs, .unflushed channel stage (Prod.ext rfl fails)⟩

/-! ## One event, seen from one trip -/

/-- The trip is where it was, or it is past the end of its steps and sends nothing. -/
def Stays (c : Client) (e : Event) (j : Nat) (t' : Trip) : Prop :=
  ∃ t, c.trips[j]? = some t ∧ t'.sent = t.sent ∧
    (t'.stage = t.stage ∨ t'.stage.isUnderWay = false) ∧ ∀ E, ¬c.Ends e j E

theorem Stays.of_trip (trip : c.trips[j]? = some t') (noEnd : ∀ E, ¬c.Ends e j E) :
    Stays c e j t' :=
  ⟨t', trip, rfl, .inl rfl, noEnd⟩

/-- A trip that is past the end of its steps goes on, and the others stay. -/
theorem Stays.of_set {u : Trip} (trip : c.trips[i]? = some t) (past : t.stage.isUnderWay = false)
    (trip' : (c.trips.set i u)[j]? = some t') (past' : u.stage.isUnderWay = false)
    (same : u.sent = t.sent) : Stays c (.step i) j t' := by
  have noEnd := not_ends_of_stage trip past j
  rcases trip_of_setTrip trip' with ⟨rfl, rfl⟩ | ⟨-, still⟩
  · exact ⟨t, trip, same, .inr past', noEnd⟩
  · exact .of_trip still noEnd

theorem sent_of_script? {f : Wire → Wire} (of : e.script? = some (i, f)) (t : Trip) :
    (t.onWire f).sent = t.sent := by
  have same (w : Wire) : (f w).sent = w.sent := by
    cases e with
    | arrive | allow | failFlush =>
        cases of
        rfl
    | _ => cases of
  rcases t with ⟨stage, channel, socketOpen⟩
  cases channel with
  | none => rfl
  | some d => exact same d.wire

/-- An event moves a trip, or the trip stays, or it is a new one. -/
theorem Move.trip_cases (move : Move c e c') (trip' : c'.trips[j]? = some t') :
    (∃ mv t k, e.trip? = some (j, mv) ∧ Runs c j t k ∧ t.move? k mv = some t') ∨
      Stays c e j t' ∨ c.trips.length ≤ j ∧ t' = .start := by
  cases move with
  | admitted =>
      refine .inr ?_
      rcases trip_of_enroll trip' with trip | new
      · exact .inl (.of_trip trip (not_ends_of_trip? rfl j))
      · exact .inr new
  | turnedAway => exact .inr (.inl (.of_trip trip' (not_ends_of_trip? rfl j)))
  | @underWay e i mv t u k of runs moved =>
      rcases trip_of_setTrip trip' with ⟨rfl, rfl⟩ | ⟨other, trip⟩
      · exact .inl ⟨mv, t, k, of, runs, moved⟩
      · refine .inr (.inl (.of_trip trip ?_))
        intro E ends
        exact other ((ends_iff of runs j E).1 ends).1.symm
  | closed runs stage | retired runs stage | judged runs stage | calling runs stage
  | called runs stage =>
      exact .inr (.inl (.of_set runs.trip (by rw [stage]; rfl) trip' rfl rfl))
  | @resubmitted i t k o inUse accepted payload later d crew runs stage submitted finish =>
      refine .inr ?_
      have past : t.stage.isUnderWay = false := by rw [stage]; rfl
      have noEnd := not_ends_of_stage runs.trip past j
      rcases trip_of_setTrip (c := d) trip' with ⟨rfl, rfl⟩ | ⟨-, trip⟩
      · exact .inl ⟨t, runs.trip, rfl, .inr rfl, noEnd⟩
      · -- Another trip than the one that comes home: old, or the one its callback submitted.
        have behind : (c.submit ⟨k.id, k.endpoint, payload, later⟩).1 = d := by rw [submitted]
        rw [← behind] at trip
        rcases trip_of_submit trip with old | new
        · exact .inl (.of_trip old noEnd)
        · exact .inr new
  | left trip stage =>
      exact .inr (.inl (.of_trip trip' (not_ends_of_stage trip (by rw [stage]; rfl) j)))
  | @scripted e i f t of trip =>
      have noEnd : ∀ E, ¬c.Ends e j E := not_ends_of_trip? (by cases e <;> first | rfl | cases of) j
      rcases trip_of_setTrip trip' with ⟨rfl, rfl⟩ | ⟨-, still⟩
      · exact .inr (.inl ⟨t, trip, sent_of_script? of t, .inl rfl, noEnd⟩)
      · exact .inr (.inl (.of_trip still noEnd))
  | cancelled => exact .inr (.inl (.of_trip trip' (not_ends_of_trip? rfl j)))
  | cancelledAll => exact .inr (.inl (.of_trip trip' (not_ends_of_trip? rfl j)))
  | @onCrew e e' crew of =>
      exact .inr (.inl (.of_trip trip' (not_ends_of_trip? (by cases e <;> first | rfl | cases of) j)))
  | @discarded i t crew trip discard =>
      have noEnd : ∀ E, ¬c.Ends (.discard i) j E := not_ends_of_trip? rfl j
      rcases trip_of_setTrip trip' with ⟨rfl, rfl⟩ | ⟨-, still⟩
      · exact .inr (.inl ⟨t, trip, rfl, .inr rfl, noEnd⟩)
      · exact .inr (.inl (.of_trip still noEnd))

/-! ## Every move keeps to the payload -/

/-- What the trips have sent agrees with their payloads, with where they stand, and with the ends
that they came to so far. -/
structure Postage (a : List Submission) (came : Nat → Trip.Stage → Ending → Prop) (c : Client) :
    Prop where
  sends : ∀ (j : Nat) (r : Submission) (t : Trip), a[j]? = some r → c.trips[j]? = some t →
    t.stage.Sends r.payload t.sent
  leaves : ∀ (j : Nat) (r : Submission) (t : Trip) (s : Trip.Stage) (E : Ending),
    a[j]? = some r → c.trips[j]? = some t → came j s E → Trip.Leaves r.payload t.sent s E

theorem Postage.start (threads : Nat) (came : Nat → Trip.Stage → Ending → Prop) :
    Postage [] came (ofThreads threads) where
  sends j r t submission := by simp at submission
  leaves j r t s E submission := by simp at submission

theorem payload_of_ticket {r : Submission} (hb : Books a m c) (submission : a[j]? = some r)
    (ticket : c.desk.tickets[j]? = some k) : k.payload = r.payload := by
  have same := congrArg (fun l => l[j]?) hb.tickets
  simp only [List.getElem?_map, ticket, submission, Option.map_some, Option.some.injEq] at same
  exact congrArg (·.2.2) same

theorem Postage.of_move {hit : Nat → Prop} {ended : Nat → Ending → Prop} (hp : Postage a came c)
    (hb : Books a m c) (hc : Chronicle hit ended c) (cameTo : ∀ j s E, came j s E → ended j E)
    (fresh : e.IsFresh) (move : Move c e c') :
    Postage (a ++ (c.accepted? e).toList) (fun j s E => came j s E ∨ c.EndsFrom e j s E) c' := by
  -- A trip that there was has the payload that it had.
  have old {j : Nat} {r : Submission} {t : Trip} (trip : c.trips[j]? = some t)
      (submission : (a ++ (c.accepted? e).toList)[j]? = some r) : a[j]? = some r := by
    rwa [List.getElem?_append_left (hb.lt_of_trip trip)] at submission
  have both (j : Nat) (r : Submission) (t' : Trip)
      (submission : (a ++ (c.accepted? e).toList)[j]? = some r) (trip' : c'.trips[j]? = some t') :
      t'.stage.Sends r.payload t'.sent ∧ ∀ s E, came j s E ∨ c.EndsFrom e j s E →
        Trip.Leaves r.payload t'.sent s E := by
    rcases move.trip_cases trip' with ⟨mv, t, k, of, runs, moved⟩ | stays | ⟨new, rfl⟩
    · have submission := old runs.trip submission
      have sends := hp.sends j r t submission runs.trip
      rw [← payload_of_ticket hb submission runs.ticket] at sends ⊢
      have underWay := Trip.isUnderWay_of_move? moved
      refine ⟨(Trip.sends_of_move? moved (fresh.move of) sends).1, ?_⟩
      rintro s E (before | ⟨mv', u, k', of', runs', stage, ends⟩)
      · -- A trip that is under way came to no end.
        have hnone := (Trip.Stage.accords_of_isUnderWay underWay).1 (hc.stage j t runs.trip)
        exact absurd (cameTo j s E before) (hnone E)
      · cases of.symm.trans of'
        cases runs.trip.symm.trans runs'.trip
        cases runs.ticket.symm.trans runs'.ticket
        rw [← stage]
        exact ends.leaves moved (fresh.move of) sends
    · rcases stays with ⟨t, trip, same, stage, noEnd⟩
      have submission := old trip submission
      have sends := hp.sends j r t submission trip
      rw [same]
      refine ⟨?_, ?_⟩
      · rcases stage with stage | past
        · rw [stage]
          exact sends
        · exact (Trip.Stage.sends_of_not_isUnderWay past).2 sends.isPrefix
      · rintro s E (before | now)
        · exact hp.leaves j r t s E submission trip before
        · exact absurd (ends_iff_endsFrom.2 ⟨s, now⟩) (noEnd E)
    · refine ⟨rfl, ?_⟩
      rintro s E (before | ⟨mv, t, k, -, runs, -⟩)
      · exact absurd (cameTo j s E before) ((hc.unborn j new).2 E)
      · have born := (List.getElem?_eq_some_iff.1 runs.trip).1
        exact absurd born (Nat.not_lt.2 new)
  exact ⟨fun j r t submission trip => (both j r t submission trip).1,
    fun j r t s E submission trip => (both j r t submission trip).2 s E⟩

/-! ## Runs -/

variable {threads : Nat} {es : List Event}

def CameFrom (threads : Nat) (es : List Event) (j : Nat) (s : Trip.Stage) (E : Ending) : Prop :=
  (machine threads).Happens (fun c e => c.EndsFrom e j s E) (ofThreads threads) es

def WriteFailed (threads : Nat) (es : List Event) (j : Nat) (err : IoError) : Prop :=
  (machine threads).Happens (fun c e => c.WriteFails e j err) (ofThreads threads) es

theorem cameTo_iff_cameFrom : CameTo threads es j E ↔ ∃ s, CameFrom threads es j s E := by
  constructor
  · rintro ⟨before, e, after, t, split, path, ends⟩
    rcases ends_iff_endsFrom.1 ends with ⟨s, hcame⟩
    exact ⟨s, before, e, after, t, split, path, hcame⟩
  · rintro ⟨s, before, e, after, t, split, path, hcame⟩
    exact ⟨before, e, after, t, split, path, ends_iff_endsFrom.2 ⟨s, hcame⟩⟩

theorem cameTo_write_iff :
    CameTo threads es j (.failed (.write err)) ↔ WriteFailed threads es j err := by
  simp only [CameTo, WriteFailed, ends_write_iff]

/-- The bytes that were sent agree with the payloads in every run. -/
theorem postage_of_run (run : (machine threads).run? (ofThreads threads) es = some c)
    (fresh : ∀ e ∈ es, e.IsFresh) :
    Postage (accepted threads es) (CameFrom threads es) c := by
  revert fresh
  refine Machine.run?_induction (motive := fun es c => (∀ e ∈ es, e.IsFresh) →
    Postage (accepted threads es) (CameFrom threads es) c) ?_ ?_ run
  · intro _
    exact Postage.start threads _
  · intro es c d e run last ih fresh
    have before := ih fun e mem => fresh e (List.mem_append_left _ mem)
    have now : e.IsFresh := fresh e (List.mem_append_right es (List.mem_singleton_self e))
    have next := before.of_move (books_of_run run) (chronicle_of_run run)
      (fun j s E hcame => cameTo_iff_cameFrom.2 ⟨s, hcame⟩) now (.of_step? last)
    have accepts : accepted threads (es ++ [e]) = accepted threads es ++ (c.accepted? e).toList :=
      Machine.log_concat accepted? run last
    have ends : CameFrom threads (es ++ [e]) =
        fun j s E => CameFrom threads es j s E ∨ c.EndsFrom e j s E :=
      funext fun j => funext fun s => funext fun E => propext (Machine.happens_concat run)
    rw [accepts, ends]
    exact next

theorem CameFrom.endsBy (h : CameFrom threads es j s E) :
    ∃ mv t k, t.stage = s ∧ Trip.EndsBy k t mv E := by
  rcases h with ⟨-, -, -, -, -, -, mv, t, k, -, -, stage, ends⟩
  exact ⟨mv, t, k, stage, ends⟩

/-- In every run of a client whose connections have sent nothing when they are made: what a trip
has sent is the beginning of its payload; this is nothing if the trip came to its end while it
connected or at the look at its flag behind that, and otherwise the whole payload, unless a write or
a flush failed; and such a failure is reported whatever else happens, a failure of connecting comes
before the first byte, a failure of reading behind the last, and a trip that is reported as
cancelled has sent nothing or all. -/
theorem payload_cut_by_failure_only
    (run : (machine threads).run? (ofThreads threads) es = some c) (fresh : ∀ e ∈ es, e.IsFresh)
    {r : Submission} (submission : (accepted threads es)[j]? = some r)
    (trip : c.trips[j]? = some t) :
    t.sent <+: r.payload ∧
    (∀ s E, CameFrom threads es j s E →
      (s.isEarly = true → t.sent = []) ∧
      (s.isEarly = false → (∀ err, ¬WriteFailed threads es j err) → t.sent = r.payload)) ∧
    ∀ report ∈ c.reports, report.trip = j →
      (∃ s E, CameFrom threads es j s E) ∧
      (∀ err, WriteFailed threads es j err ↔ report.outcome = .failed (.write err)) ∧
      (∀ err, report.outcome = .failed (.connect err) → t.sent = []) ∧
      (∀ err, report.outcome = .failed (.read err) → t.sent = r.payload) ∧
      (∀ text, report.outcome = .response text → t.sent = r.payload) ∧
      (report.outcome = .failed .cancelled → t.sent = [] ∨ t.sent = r.payload) := by
  have postage := postage_of_run run fresh
  have leaves {s : Trip.Stage} {E : Ending} (hcame : CameFrom threads es j s E) :=
    postage.leaves j r t s E submission trip hcame
  refine ⟨(postage.sends j r t submission trip).isPrefix, ?_, ?_⟩
  · intro s E hcame
    refine ⟨(leaves hcame).nothing, ?_⟩
    intro late noFailure
    refine (leaves hcame).all late ?_
    rintro err rfl
    exact noFailure err (cameTo_write_iff.1 (cameTo_iff_cameFrom.2 ⟨s, hcame⟩))
  · rintro report mem rfl
    -- A report names an outcome; the chronicle of the run names the ending behind it.
    rcases (chronicle_of_run run).reports report mem with ⟨E, flag, outcome, -, hended⟩
    rcases cameTo_iff_cameFrom.1 ((hended.only E).2 rfl) with ⟨s, hcame⟩
    rcases hcame.endsBy with ⟨mv, u, k, stage, ends⟩
    rw [outcome]
    refine ⟨⟨s, E, hcame⟩, ?_, ?_, ?_, ?_, ?_⟩
    · intro err
      have cause : RequestError.write err ≠ .cancelled := nofun
      rw [← cameTo_write_iff, hended.only, Ending.outcome_eq_failed_iff cause]
      exact eq_comm
    · intro err connect
      have cause : RequestError.connect err ≠ .cancelled := nofun
      obtain rfl := (Ending.outcome_eq_failed_iff cause).1 connect
      exact (leaves hcame).nothing (stage ▸ ends.isEarly_of_connect)
    · intro err read
      have cause : RequestError.read err ≠ .cancelled := nofun
      obtain rfl := (Ending.outcome_eq_failed_iff cause).1 read
      exact (leaves hcame).all (stage ▸ ends.not_isEarly nofun nofun) nofun
    · intro text response
      obtain rfl := Ending.eq_text_of_outcome response
      exact (leaves hcame).all (stage ▸ ends.not_isEarly nofun nofun) nofun
    · intro cancelled
      refine (leaves hcame).nothing_or_all ?_
      rintro err rfl
      cases cancelled

/-- A request is cancelled when one byte of three is written and the next write waits; the rest is
written before the cancellation is looked at. -/
def halfWrittenRun : List Event :=
  let wire : Wire := { Wire.blank with uptakes := [.atMost 1, .blocked] }
  [.submit ⟨7, .v4 ⟨127, 0, 0, 1⟩ 7000, [1, 2, 3], []⟩, .enqueue 0, .connect 0 (some (.ok wire))] ++
    List.replicate 3 (.step 0) ++ .cancel 7 :: List.replicate 7 (.step 0)

theorem nothing_cut_of_halfWrittenRun :
    ∃ c t, (machine 1).run? (ofThreads 1) halfWrittenRun = some c ∧ c.trips[0]? = some t ∧
      (∃ report ∈ c.reports, report.trip = 0 ∧ report.outcome = .failed .cancelled) ∧
      (t.sent = [] ∨ t.sent = [1, 2, 3]) := by
  obtain ⟨c, run⟩ : ∃ c, (machine 1).run? (ofThreads 1) halfWrittenRun = some c := ⟨_, rfl⟩
  have fresh : ∀ e ∈ halfWrittenRun, e.IsFresh := by
    rintro e mem j w rfl
    have only : j = 0 ∧ w = { Wire.blank with uptakes := [.atMost 1, .blocked] } := by
      simpa [halfWrittenRun] using mem
    rw [only.2]
    rfl
  have reported : c.reports = [⟨0, 7, .failed .cancelled, none⟩] := by
    cases run
    rfl
  obtain ⟨t, trip⟩ : ∃ t, c.trips[0]? = some t := by
    cases run
    exact ⟨_, rfl⟩
  have mem : ⟨0, 7, .failed .cancelled, none⟩ ∈ c.reports := by simp [reported]
  rcases payload_cut_by_failure_only (j := 0) run fresh rfl trip with ⟨-, -, told⟩
  rcases told _ mem rfl with ⟨-, -, -, -, -, cancelled⟩
  exact ⟨c, t, run, trip, ⟨_, mem, rfl, rfl⟩, cancelled rfl⟩

end Client

end LineExchange
