import LineExchange.Proofs.Call.ClientSide
import LineExchange.Proofs.Call.ServerSide

/-!
# Course — what every event on a connection does to a call

The two sides of a call meet on their connection.  This file defines:

* `Call.IsSound` — payload and answer are lines that fit in an inbox, and no write fails;
* `Link.Coupled` and `Link.OnCourse` — the client and the server of a call on their courses, and how
  much of what each of them sent has come to the other;
* `Link.left` — how much the call has still to do: what is on its way weighs less than what is to be
  sent, and what has come weighs less again;
* `Link.Advances` and `Link.Rests` — an event leaves less to do, or it changes nothing.

Every event of a call on its course does the one or the other (`advances_or_rests`), and as long as
the call is not home there is a party whose events all advance it (`exists_party`).
-/

namespace LineExchange

/-- The payload and the answer are lines that fit in an inbox, and no write fails. -/
structure Call.IsSound (a : Call) : Prop where
  payload : Line.IsLine Line.delimiter a.payload
  payloadFits : a.payload.length ≤ Inbox.capacity
  answer : Line.IsLine Line.delimiter a.answer
  answerFits : a.answer.length ≤ Inbox.capacity
  up : ∀ u ∈ a.up, u.IsGentle
  down : ∀ u ∈ a.down, u.IsGentle

namespace Link

/-- The client with its trip and job, the server with its exchange, and what has come to them. -/
structure Coupled (a : Call) (t : Trip) (job : Job) (x : Option Exchange) (l : Link) : Prop where
  calling : a.Calling l.returned l.hungUp t job l.client
  serving : a.Serving l.carried x l.exchanges
  connected : x.isSome = true → t.channel.isSome = true
  carried : l.carried ≤ t.sent.length
  returned : l.returned ≤ (Call.sentBy x).length
  hungUp : l.hungUp = true → a.answer.length ≤ l.returned

def OnCourse (a : Call) (l : Link) : Prop :=
  ∃ t job x, l.Coupled a t job x

def clientLeft (a : Call) (l : Link) : Nat :=
  match l.trip?, l.client.crew.jobs[0]? with
  | some t, some job => a.clientLeft t job
  | _, _ => 0

def left (a : Call) (l : Link) : Nat :=
  -- What was sent counts five for each byte, until it has come.
  l.clientLeft a + a.serverLeft l.exchange? + (if l.hungUp then 0 else 5) -
    5 * (l.carried + l.returned)

def Advances (a : Call) (l : Link) (e : Event) : Prop :=
  ∃ l', step? a l e = some l' ∧ l'.OnCourse a ∧ l'.left a < l.left a

def Rests (a : Call) (l : Link) (e : Event) : Prop :=
  ∀ l', step? a l e = some l' → l' = l

variable {a : Call} {l : Link} {t : Trip} {job : Job} {x : Option Exchange} {e : Event}

/-- The events of each party. -/
theorem Event.of_party? {p : Party} (mine : e.party? = some p) :
    match p with
    | .loop => e = .enqueue
    | .network => e = .connect true
    | .client => e = .step
    | .listener => e = .accept
    | .server => e = .serve
    | .onward => ∃ n, e = .carry n
    | .homeward => ∃ n, e = .bring n := by
  cases e with
  | connect ready =>
      cases ready with
      | false => cases mine
      | true =>
          cases mine
          rfl
  | carry n =>
      cases mine
      exact ⟨n, rfl⟩
  | bring n =>
      cases mine
      exact ⟨n, rfl⟩
  | hangUp => cases mine
  | _ =>
      cases mine
      rfl

theorem onCourse_start (a : Call) : (start a).OnCourse a :=
  ⟨.start, .counted, none, .start a, .start a, by simp, Nat.le_refl 0, Nat.le_refl 0,
    by simp [start]⟩

namespace Coupled

theorem trip?_eq (h : l.Coupled a t job x) : l.trip? = some t := by
  simp [trip?, h.calling.solo.trips]

theorem exchange?_eq (h : l.Coupled a t job x) : l.exchange? = x := by
  cases x <;> simp [exchange?, h.serving.all]

theorem sentUp_eq (h : l.Coupled a t job x) : l.sentUp = t.sent := by
  simp only [sentUp, h.trip?_eq]

theorem sentDown_eq (h : l.Coupled a t job x) : l.sentDown = Call.sentBy x := by
  cases x <;> simp only [sentDown, h.exchange?_eq, Call.sentBy]

theorem left_eq (h : l.Coupled a t job x) :
    l.left a = a.clientLeft t job + a.serverLeft x + (if l.hungUp then 0 else 5) -
      5 * (l.carried + l.returned) := by
  simp only [left, clientLeft, h.trip?_eq, h.exchange?_eq, h.calling.solo.jobs,
    List.getElem?_cons_zero]

/-- What has come weighed as much before as it was sent. -/
theorem le_weights (h : l.Coupled a t job x) :
    5 * l.carried ≤ a.clientLeft t job ∧ 5 * l.returned ≤ a.serverLeft x := by
  have carried := h.carried
  have returned := h.returned
  constructor
  · simp only [Call.clientLeft]
    omega
  · cases x with
    | none => simp_all [Call.sentBy]
    | some y =>
        simp only [Call.serverLeft, Call.sentBy] at *
        omega

/-! ## Events of one side -/

theorem advances_of_furthers {e' : Client.Event} (h : l.Coupled a t job x)
    (same : step? a l e = l.onClient e')
    (furthers : a.Furthers l.returned l.hungUp t job l.client e') : l.Advances a e := by
  rcases furthers with ⟨c, t', job', step, calling, more, connected, less⟩
  have next : Coupled a t' job' x { l with client := c } :=
    ⟨calling, h.serving, fun hne => connected (h.connected hne), Nat.le_trans h.carried more,
      h.returned, h.hungUp⟩
  refine ⟨{ l with client := c }, ?_, ⟨t', job', x, next⟩, ?_⟩
  · simp [same, onClient, step]
  · have before := h.le_weights
    have behind := next.le_weights
    rw [next.left_eq, h.left_eq]
    simp only at behind ⊢
    omega

theorem rests_of_client {e' : Client.Event} (same : step? a l e = l.onClient e')
    (rests : Call.Calling.Rests l.client e') : l.Rests a e := by
  intro l' step
  rw [same, onClient, Option.map_eq_some_iff] at step
  rcases step with ⟨c, step, rfl⟩
  rw [rests c step]

theorem advances_of_attends {e' : Exchanges.Event} (h : l.Coupled a t job x)
    (connected : t.channel.isSome = true) (same : step? a l e = l.onServer a e')
    (attends : a.Attends l.carried x l.exchanges e') : l.Advances a e := by
  rcases attends with ⟨xs, y, step, serving, more, less⟩
  have next : Coupled a t job (some y) { l with exchanges := xs } :=
    ⟨h.calling, serving, fun _ => connected, h.carried, Nat.le_trans h.returned more, h.hungUp⟩
  refine ⟨{ l with exchanges := xs }, ?_, ⟨t, job, some y, next⟩, ?_⟩
  · simp [same, onServer, step]
  · have before := h.le_weights
    have behind := next.le_weights
    rw [next.left_eq, h.left_eq]
    simp only at behind ⊢
    omega

theorem accept (sound : a.IsSound) (h : l.Coupled a t job none)
    (connected : t.channel.isSome = true) : l.Advances a .accept := by
  have may : l.isConnected = true ∧ l.exchange? = none := by
    simp [isConnected, h.trip?_eq, h.exchange?_eq, connected]
  refine h.advances_of_attends connected ?_ (h.serving.accept sound.down)
  simp only [step?, if_pos may]

theorem accept_or_rests (sound : a.IsSound) (h : l.Coupled a t job x) :
    l.Advances a .accept ∨ l.Rests a .accept := by
  by_cases may : l.isConnected = true ∧ l.exchange? = none
  · obtain rfl : x = none := h.exchange?_eq.symm.trans may.2
    have connected : t.channel.isSome = true := by simpa [isConnected, h.trip?_eq] using may.1
    exact .inl (h.accept sound connected)
  · right
    intro l' step
    simp [step?, may] at step

theorem serve_or_rests (sound : a.IsSound) (h : l.Coupled a t job x) :
    l.Advances a .serve ∨ l.Rests a .serve := by
  rcases h.serving.step_or_rests sound.payload sound.payloadFits with attends | rests
  · cases x with
    | none =>
        rcases attends with ⟨xs, y, step, -⟩
        simp [Exchanges.step?, h.serving.all] at step
    | some y => exact .inl (h.advances_of_attends (h.connected rfl) rfl attends)
  · right
    intro l' step
    rcases Option.map_eq_some_iff.1 step with ⟨xs, served, rfl⟩
    rw [rests xs served]

/-! ## Events of the connection -/

/-- What is on its way of the part that was sent is next of the whole. -/
theorem exists_piece {sent whole : Bytes} (part : sent <+: whole) {m : Nat} (n : Nat)
    (more : m < sent.length) :
    ∃ b bs k, (sent.drop m).take (n + 1) = b :: bs ∧ b :: bs = (whole.drop m).take k ∧
      m + (b :: bs).length ≤ sent.length := by
  rcases part with ⟨rest, rfl⟩
  cases next : (sent.drop m).take (n + 1) with
  | nil =>
      have size := congrArg List.length next
      simp only [List.length_take, List.length_drop, List.length_nil] at size
      omega
  | cons b bs =>
      have size := congrArg List.length next
      simp only [List.length_take, List.length_drop, List.length_cons] at size
      refine ⟨b, bs, min (n + 1) (sent.drop m).length, rfl, ?_, ?_⟩
      · calc b :: bs
            = (sent.drop m).take (n + 1) := next.symm
          _ = (sent.drop m).take (min (n + 1) (sent.drop m).length) := List.take_eq_take_min
          _ = ((sent ++ rest).drop m).take (min (n + 1) (sent.drop m).length) := by
            rw [List.drop_append, List.take_append_of_le_length (Nat.min_le_right _ _)]
      · simp only [List.length_cons]
        omega

theorem carry {y : Exchange} (h : l.Coupled a t job (some y)) (n : Nat)
    (more : l.carried < t.sent.length) : l.Advances a (.carry n) := by
  rcases exists_piece h.calling.course.sent_isPrefix n more with ⟨b, bs, k, next, piece, size⟩
  rcases h.serving.arrive piece (by simp) with ⟨xs, z, step, serving, sent, weighs⟩
  have coupled : Coupled a t job (some z)
      { l with exchanges := xs, carried := l.carried + (b :: bs).length } :=
    ⟨h.calling, serving, fun _ => h.connected rfl, size,
      by simpa only [Call.sentBy, sent] using h.returned, h.hungUp⟩
  refine ⟨_, ?_, ⟨t, job, some z, coupled⟩, ?_⟩
  · simp only [step?, h.sentUp_eq, next, onServer, step, Option.map_some]
  · -- A piece weighs four where it came, and each of its bytes weighed five on its way.
    have before := h.le_weights
    have behind := coupled.le_weights
    rw [coupled.left_eq, h.left_eq]
    simp only [List.length_cons] at behind ⊢
    omega

theorem carry_or_rests (h : l.Coupled a t job x) (n : Nat) :
    l.Advances a (.carry n) ∨ l.Rests a (.carry n) := by
  cases x with
  | none =>
      -- Nobody is there to take it.
      right
      intro l' step
      simp only [step?] at step
      split at step
      · cases step
      · simp [onServer, Exchanges.step?, Exchanges.onWire, h.serving.all] at step
  | some y =>
      by_cases more : l.carried < t.sent.length
      · exact .inl (h.carry n more)
      · right
        intro l' step
        have nothing : t.sent.drop l.carried = [] := List.drop_eq_nil_of_le (by omega)
        simp [step?, h.sentUp_eq, nothing] at step

theorem bring (h : l.Coupled a t job x) (n : Nat) (more : l.returned < (Call.sentBy x).length) :
    l.Advances a (.bring n) := by
  have connected : t.channel.isSome = true := by
    cases x with
    | none => cases more
    | some y => exact h.connected rfl
  -- Once the stream has ended, nothing of the answer is on its way any more.
  have hopen : l.hungUp = false := by
    have part := h.serving.sentBy_isPrefix.length_le
    have whole := h.hungUp
    cases hungUp : l.hungUp with
    | false => rfl
    | true =>
        have all := whole hungUp
        omega
  have calling := h.calling
  rw [hopen] at calling
  rcases exists_piece h.serving.sentBy_isPrefix n more with ⟨b, bs, k, next, piece, size⟩
  rcases calling.arrive (fun w receiving => receiving.expectPiece piece (by simp)) connected with
    ⟨c, t', step, calling', sent, connected', weighs⟩
  have coupled : Coupled a t' job x
      { l with client := c, returned := l.returned + (b :: bs).length } :=
    ⟨hopen.symm ▸ calling', h.serving, fun _ => connected', sent ▸ h.carried, size,
      by simp [hopen]⟩
  refine ⟨_, ?_, ⟨t', job, x, coupled⟩, ?_⟩
  · simp only [step?, h.sentDown_eq, next, onClient, step, Option.map_some]
  · have before := h.le_weights
    have behind := coupled.le_weights
    rw [coupled.left_eq, h.left_eq]
    simp only [List.length_cons] at behind ⊢
    omega

theorem bring_or_rests (h : l.Coupled a t job x) (n : Nat) :
    l.Advances a (.bring n) ∨ l.Rests a (.bring n) := by
  by_cases more : l.returned < (Call.sentBy x).length
  · exact .inl (h.bring n more)
  · right
    intro l' step
    have nothing : (Call.sentBy x).drop l.returned = [] := List.drop_eq_nil_of_le (by omega)
    simp [step?, h.sentDown_eq, nothing] at step

theorem hangUp_or_rests (h : l.Coupled a t job x) : l.Advances a .hangUp ∨ l.Rests a .hangUp := by
  cases drained : l.isDrained with
  | false =>
      right
      intro l' step
      simp [step?, drained] at step
  | true =>
      left
      simp only [isDrained, h.exchange?_eq, h.sentDown_eq, Bool.and_eq_true, decide_eq_true_eq,
        Bool.not_eq_true'] at drained
      rcases drained with ⟨⟨finished, all⟩, hopen⟩
      cases x with
      | none => cases finished
      | some y =>
          -- The stream is closed by an exchange that is over, and that has sent all of the answer.
          have whole : y.sent = a.answer := by
            have course := h.serving.course y rfl
            rcases y with ⟨c, stage⟩
            cases stage with
            | finished => exact course.2
            | _ => cases finished
          have come : a.answer.length ≤ l.returned := by
            rw [← whole]
            exact all
          have calling := h.calling
          rw [hopen] at calling
          rcases calling.arrive (fun w receiving => receiving.expectClose come)
            (h.connected rfl) with ⟨c, t', step, calling', sent, connected, weighs⟩
          have coupled : Coupled a t' job (some y) { l with client := c, hungUp := true } :=
            ⟨calling', h.serving, fun _ => connected, sent ▸ h.carried, h.returned, fun _ => come⟩
          have may : l.isDrained = true := by
            simp [isDrained, h.exchange?_eq, h.sentDown_eq, finished, all, hopen]
          refine ⟨{ l with client := c, hungUp := true }, ?_, ⟨t', job, some y, coupled⟩, ?_⟩
          · simp only [step?, if_pos may, onClient, step, Option.map_some]
          · have before := h.le_weights
            have behind := coupled.le_weights
            rw [coupled.left_eq, h.left_eq]
            simp only [hopen] at behind ⊢
            simp only [if_true, Bool.false_eq_true, if_false]
            omega

/-! ## All events -/

/-- Every event advances the call, or it changes nothing. -/
theorem advances_or_rests (sound : a.IsSound) (h : l.Coupled a t job x) (e : Event) :
    l.Advances a e ∨ l.Rests a e := by
  cases e with
  | enqueue =>
      rcases h.calling.enqueue_or_rests with furthers | rests
      · exact .inl (h.advances_of_furthers rfl furthers)
      · exact .inr (rests_of_client rfl rests)
  | connect ready =>
      rcases h.calling.connect_or_rests sound.up ready with furthers | rests
      · exact .inl (h.advances_of_furthers rfl furthers)
      · exact .inr (rests_of_client rfl rests)
  | step =>
      rcases h.calling.step_or_rests sound.answer sound.answerFits with furthers | rests
      · exact .inl (h.advances_of_furthers rfl furthers)
      · exact .inr (rests_of_client rfl rests)
  | accept => exact h.accept_or_rests sound
  | serve => exact h.serve_or_rests sound
  | carry n => exact h.carry_or_rests n
  | bring n => exact h.bring_or_rests n
  | hangUp => exact h.hangUp_or_rests

/-! ## Somebody can go on -/

/-- Who idles is waited for: some other party has something to do. -/
theorem exists_party_of_idling (sound : a.IsSound) (h : l.Coupled a t job x) (idles : t.Idles) :
    ∃ p, ∀ e : Event, e.party? = some p → l.Advances a e := by
  rcases idles with ⟨wait, c, stage, channel, nothing⟩
  have course := h.calling.course
  simp only [Trip.OnCourse, stage, channel] at course
  rcases course with ⟨receiving, sent, free⟩
  have connected : t.channel.isSome = true := by simp [channel]
  have sentAll : t.sent = a.payload := by simpa only [Trip.sent, channel] using sent
  -- The client has not got all of the answer.
  have missing : l.returned < a.answer.length := receiving.lt_length sound.answer free nothing
  -- So it waits for bytes on their way, or for the server, which waits for the rest of the payload.
  by_cases onTheWay : l.returned < (Call.sentBy x).length
  · refine ⟨.homeward, ?_⟩
    intro e isBring
    obtain ⟨n, rfl⟩ : ∃ n, e = .bring n := Event.of_party? isBring
    exact h.bring n onTheWay
  cases x with
  | none =>
      refine ⟨.listener, ?_⟩
      intro e isAccept
      obtain rfl : e = .accept := Event.of_party? isAccept
      exact h.accept sound connected
  | some y =>
      -- The server has not sent all of the answer.
      have hopen : y.isFinished = false := by
        have course := h.serving.course y rfl
        rcases y with ⟨d, stage⟩
        cases stage with
        | finished =>
            have whole : Call.sentBy (some ⟨d, .finished _⟩) = a.answer := course.2
            rw [whole] at onTheWay
            exact absurd missing onTheWay
        | _ => rfl
      rcases h.serving.step sound.payload sound.payloadFits hopen with
        attends | ⟨⟨wait, stage, nothing⟩, -⟩
      · refine ⟨.server, ?_⟩
        intro e isServe
        obtain rfl : e = .serve := Event.of_party? isServe
        exact h.advances_of_attends connected rfl attends
      · refine ⟨.onward, ?_⟩
        have course := h.serving.course y rfl
        simp only [Exchange.OnCourse, stage] at course
        rcases course with ⟨receiving, -, free⟩
        have missing : l.carried < t.sent.length := by
          rw [sentAll]
          exact receiving.lt_length sound.payload free nothing
        intro e isCarry
        obtain ⟨n, rfl⟩ : ∃ n, e = .carry n := Event.of_party? isCarry
        exact h.carry n missing

/-- As long as the trip is not home, there is a party whose events all advance the call. -/
theorem exists_party (sound : a.IsSound) (h : l.Coupled a t job x) (out : t.stage ≠ .home) :
    ∃ p, ∀ e : Event, e.party? = some p → l.Advances a e := by
  cases job with
  | counted =>
      refine ⟨.loop, ?_⟩
      intro e isEnqueue
      obtain rfl : e = .enqueue := Event.of_party? isEnqueue
      exact h.advances_of_furthers rfl h.calling.enqueue
  | live =>
      -- A trip that is connecting needs the network, and any other goes on by itself or idles.
      cases connecting : t.stage.isConnecting with
      | true =>
          refine ⟨.network, ?_⟩
          intro e isConnect
          obtain rfl : e = .connect true := Event.of_party? isConnect
          exact h.advances_of_furthers rfl (h.calling.connect sound.up connecting).1
      | false =>
          rcases h.calling.step sound.answer sound.answerFits connecting with furthers | ⟨idles, -⟩
          · refine ⟨.client, ?_⟩
            intro e isStep
            obtain rfl : e = .step := Event.of_party? isStep
            exact h.advances_of_furthers rfl furthers
          · exact h.exists_party_of_idling sound idles
  | leaving => exact absurd h.calling.fits.2 out
  | done => exact absurd h.calling.fits out
  | failed => exact h.calling.fits.elim
  | dropped => exact h.calling.fits.elim

end Coupled
end Link
end LineExchange
