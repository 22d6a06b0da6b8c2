import LineExchange.Client.Trip

/-!
# Ending — what makes an end of the steps of a trip

A trip is under way until something makes an end of its steps: a line that was read, an error of
connecting, writing or reading, or a cancellation that was seen.  This file defines:

* `Trip.Move` — what a trip does while it is under way;
* `Trip.EndsBy` — the moves that make an end of a trip, each with the ending that it makes.

A move keeps the trip under way or makes the one ending that `EndsBy` tells (`move?_cases`), and it
opens the socket of its connection or leaves both as they were (`opens_or_keeps`).
-/

namespace LineExchange
namespace Trip

/-! ## Moves -/

inductive Move where
  | refuse (error : IoError)
  | connect (result : Option (Except IoError Wire))
  | step

def move? (k : Ticket) (t : Trip) : Move → Option Trip
  | .refuse e => t.refuse e
  | .connect result => t.connect k result
  | .step => t.step k

def Stage.isConnecting : Stage → Bool
  | .connecting .. => true
  | _ => false

def Stage.isLinked : Stage → Bool
  | .connected | .writing _ | .written | .searching | .awaiting _ => true
  | _ => false

def Stage.isUnderWay (s : Stage) : Bool :=
  s.isConnecting || s.isLinked

theorem Stage.ne_of_isUnderWay {s s' : Stage} (underWay : s.isUnderWay = true)
    (past : s'.isUnderWay = false) : s ≠ s' := by
  intro same
  rw [same, past] at underWay
  cases underWay

/-! ## What ends a trip -/

inductive EndsBy (k : Ticket) (t : Trip) : Move → Ending → Prop where
  /-- There is no socket to connect. -/
  | noSocket {s : Signal} {e : IoError} (stage : t.stage = .connecting s .unpolled) :
      EndsBy k t (.refuse e) (.failed (.connect e))
  /-- The latch is raised before there is a connection. -/
  | raisedConnecting {s : Signal} {w : Wait} {r : Option (Except IoError Wire)}
      (stage : t.stage = .connecting s w) (raised : (s.poll k.latch w).2 = none) :
      EndsBy k t (.connect r) .cancelled
  /-- Connecting fails. -/
  | unconnected {s : Signal} {w : Wait} {e : IoError} (stage : t.stage = .connecting s w)
      (unraised : (s.poll k.latch w).2 ≠ none) :
      EndsBy k t (.connect (some (.error e))) (.failed (.connect e))
  /-- The flag is set at one of the two looks at it. -/
  | flagged (stage : t.stage = .connected ∨ t.stage = .written) (flag : k.cancelled = true) :
      EndsBy k t .step .cancelled
  /-- A write fails. -/
  | unwritten {c : Channel} {rest : Bytes} {w : Wire} {e : IoError} (channel : t.channel = some c)
      (stage : t.stage = .writing rest) (left : rest ≠ [])
      (fails : c.wire.take rest = (w, .failed e)) :
      EndsBy k t .step (.failed (.write e))
  /-- The flush behind the last write fails. -/
  | unflushed {c : Channel} {w : Wire} {e : IoError} (channel : t.channel = some c)
      (stage : t.stage = .writing []) (fails : c.wire.flush = (w, some e)) :
      EndsBy k t .step (.failed (.write e))
  /-- A full line was read. -/
  | read {c c' : Channel} {line : Bytes} (channel : t.channel = some c)
      (stage : t.stage = .searching) (offered : c.offer Line.delimiter = (c', .line line)) :
      EndsBy k t .step (.text (responseText line))
  /-- There is no room for the line. -/
  | overfull {c c' : Channel} (channel : t.channel = some c) (stage : t.stage = .searching)
      (offered : c.offer Line.delimiter = (c', .full)) :
      EndsBy k t .step (.failed (.read ChannelError.bufferFull.toIoError))
  /-- The latch is raised before there is a line. -/
  | raisedReading {c c' : Channel} {w : Wait} (channel : t.channel = some c)
      (stage : t.stage = .awaiting w) (fails : c.await k.latch w = (c', .failed .cancelled)) :
      EndsBy k t .step .cancelled
  /-- A read fails. -/
  | unread {c c' : Channel} {w : Wait} {e : ChannelError} (channel : t.channel = some c)
      (stage : t.stage = .awaiting w) (fails : c.await k.latch w = (c', .failed e))
      (cause : e ≠ .cancelled) :
      EndsBy k t .step (.failed (.read e.toIoError))

variable {k : Ticket} {t t' : Trip} {mv : Move} {E E' : Ending}

/-- Only a ticket that was cancelled makes a trip end by a cancellation. -/
theorem EndsBy.cancelled_or_raised (h : EndsBy k t mv .cancelled) :
    k.cancelled = true ∨ k.latch.raised = true := by
  cases h with
  | raisedConnecting _ raised => exact .inr (Signal.raised_of_poll_eq_none raised)
  | flagged _ flag => exact .inl flag
  | raisedReading _ _ fails => exact .inr (Channel.raised_of_await_cancelled fails)

/-! ## What a move comes to -/

/-- A move that makes an end leaves the trip at that end. -/
theorem EndsBy.stage_eq (ends : EndsBy k t mv E) (moved : t.move? k mv = some t') :
    t'.stage = .closing E := by
  rcases t with ⟨stage, channel, socketOpen⟩
  cases ends with
  | noSocket hstage =>
      cases hstage
      cases moved
      rfl
  | raisedConnecting hstage raised =>
      cases hstage
      simp only [move?, connect] at moved
      split at moved
      · cases moved
        rfl
      · simp_all
  | unconnected hstage unraised =>
      cases hstage
      simp only [move?, connect] at moved
      split at moved
      · simp_all
      · cases moved
        rfl
  | flagged hstage flag =>
      cases channel with
      | none => simp [move?, step] at moved
      | some c =>
          rcases hstage with hstage | hstage <;>
          · cases hstage
            cases moved
            simp [standing, checkpoint, flag]
  | unwritten channel hstage left fails =>
      cases hstage
      cases channel
      rename_i rest w e
      -- Without a byte left it would flush instead.
      cases rest with
      | nil => exact absurd rfl left
      | cons b bs =>
          simp only [move?, step, writeStep, fails] at moved
          cases moved
          rfl
  | unflushed channel hstage fails =>
      cases hstage
      cases channel
      simp only [move?, step, writeStep, fails] at moved
      cases moved
      rfl
  | read channel hstage offered =>
      cases hstage
      cases channel
      simp only [move?, step, searchStep, offered] at moved
      cases moved
      rfl
  | overfull channel hstage offered =>
      cases hstage
      cases channel
      simp only [move?, step, searchStep, offered] at moved
      cases moved
      rfl
  | raisedReading channel hstage fails =>
      cases hstage
      cases channel
      simp only [move?, step, awaitStep, fails] at moved
      cases moved
      rfl
  | unread channel hstage fails cause =>
      cases hstage
      cases channel
      simp only [move?, step, awaitStep, fails] at moved
      cases moved
      simp [standingOn, Ending.ofError_of_ne cause]

theorem isUnderWay_or_endsBy_of_writing {c : Channel} {rest : Bytes} (channel : t.channel = some c)
    (hstage : t.stage = .writing rest)
    (moved : t.standingOn (writeStep rest c).1 { c with wire := (writeStep rest c).2 } = t') :
    t'.stage.isUnderWay = true ∨ ∃ E, EndsBy k t .step E := by
  subst moved
  cases rest with
  | nil =>
      cases flushed : c.wire.flush with
      | mk w failure =>
          cases failure with
          | none => simp [standingOn, writeStep, flushed, Stage.isUnderWay, Stage.isLinked]
          | some e => exact .inr ⟨_, .unflushed channel hstage flushed⟩
  | cons b bs =>
      cases taken : c.wire.take (b :: bs) with
      | mk w result =>
          cases result with
          | left rest => simp [standingOn, writeStep, taken, Stage.isUnderWay, Stage.isLinked]
          | blocked => simp [standingOn, writeStep, taken, Stage.isUnderWay, Stage.isLinked]
          | failed e => exact .inr ⟨_, .unwritten channel hstage (by simp) taken⟩

theorem isUnderWay_or_endsBy_of_searching {c : Channel} (channel : t.channel = some c)
    (hstage : t.stage = .searching)
    (moved : t.standingOn (searchStep c).1 (searchStep c).2 = t') :
    t'.stage.isUnderWay = true ∨ ∃ E, EndsBy k t .step E := by
  subst moved
  cases offered : c.offer Line.delimiter with
  | mk c' offer =>
      cases offer with
      | line line => exact .inr ⟨_, .read channel hstage offered⟩
      | full => exact .inr ⟨_, .overfull channel hstage offered⟩
      | more => simp [standingOn, searchStep, offered, Stage.isUnderWay, Stage.isLinked]

theorem isUnderWay_or_endsBy_of_awaiting {c : Channel} {w : Wait} (channel : t.channel = some c)
    (hstage : t.stage = .awaiting w)
    (moved : t.standingOn (awaitStep k w c).1 (awaitStep k w c).2 = t') :
    t'.stage.isUnderWay = true ∨ ∃ E, EndsBy k t .step E := by
  subst moved
  cases awaited : c.await k.latch w with
  | mk c' result =>
      cases result with
      | arrived => simp [standingOn, awaitStep, awaited, Stage.isUnderWay, Stage.isLinked]
      | pending w' => simp [standingOn, awaitStep, awaited, Stage.isUnderWay, Stage.isLinked]
      | failed e =>
          by_cases cause : e = .cancelled
          · subst cause
            exact .inr ⟨_, .raisedReading channel hstage awaited⟩
          · exact .inr ⟨_, .unread channel hstage awaited cause⟩

/-- A move that makes no end leaves the trip under way. -/
theorem isUnderWay_or_endsBy (moved : t.move? k mv = some t') :
    t'.stage.isUnderWay = true ∨ ∃ E, EndsBy k t mv E := by
  cases mv with
  | refuse e =>
      simp only [move?, refuse] at moved
      split at moved
      · rename_i hstage
        exact .inr ⟨_, .noSocket hstage⟩
      · cases moved
  | connect r =>
      simp only [move?, connect] at moved
      split at moved
      · rename_i s w hstage
        split at moved
        · -- The latch is looked at first: a raised one ends the trip, whatever the attempt came to.
          rename_i s' polled
          exact .inr ⟨_, .raisedConnecting hstage (congrArg Prod.snd polled)⟩
        · rename_i s' w' polled
          have unraised : (s.poll k.latch w).2 ≠ none := by simp [polled]
          split at moved
          · cases moved
            exact .inl rfl
          · exact .inr ⟨_, .unconnected hstage unraised⟩
          · cases moved
            exact .inl rfl
      · cases moved
  | step =>
      simp only [move?, step] at moved
      split at moved
      · cases moved
      · rename_i c channel
        split at moved
        · rename_i hstage
          -- A checkpoint looks at the flag and at nothing else.
          cases flag : k.cancelled with
          | true => exact .inr ⟨_, .flagged (.inl hstage) flag⟩
          | false =>
              cases moved
              simp [standing, checkpoint, flag, Stage.isUnderWay, Stage.isLinked]
        · rename_i rest hstage
          exact isUnderWay_or_endsBy_of_writing channel hstage (by simpa using moved)
        · rename_i hstage
          cases flag : k.cancelled with
          | true => exact .inr ⟨_, .flagged (.inr hstage) flag⟩
          | false =>
              cases moved
              simp [standing, checkpoint, flag, Stage.isUnderWay, Stage.isLinked]
        · rename_i hstage
          exact isUnderWay_or_endsBy_of_searching channel hstage (by simpa using moved)
        · rename_i w hstage
          exact isUnderWay_or_endsBy_of_awaiting channel hstage (by simpa using moved)
        · cases moved

/-- A move either keeps the trip under way or makes the end that `EndsBy` tells. -/
theorem move?_cases (moved : t.move? k mv = some t') :
    (t'.stage.isUnderWay = true ∧ ∀ E, ¬EndsBy k t mv E) ∨
      ∃ E, t'.stage = .closing E ∧ ∀ E', EndsBy k t mv E' ↔ E' = E := by
  by_cases h : ∃ E, EndsBy k t mv E
  · rcases h with ⟨E, ends⟩
    refine .inr ⟨E, ends.stage_eq moved, fun E' => ⟨fun ends' => ?_, fun same => same ▸ ends⟩⟩
    have same := (ends'.stage_eq moved).symm.trans (ends.stage_eq moved)
    injection same
  · have underWay := (isUnderWay_or_endsBy moved).resolve_right h
    exact .inl ⟨underWay, fun E ends => h ⟨E, ends⟩⟩

/-! ## The socket -/

theorem isConnecting_checkpoint {s : Stage} (h : s.isConnecting = false) :
    (checkpoint k s).isConnecting = false := by
  unfold checkpoint
  split
  · rfl
  · exact h

theorem isConnecting_writeStep (rest : Bytes) (c : Channel) :
    (writeStep rest c).1.isConnecting = false := by
  unfold writeStep
  split <;> split <;> rfl

theorem isConnecting_searchStep (c : Channel) : (searchStep c).1.isConnecting = false := by
  unfold searchStep
  split <;> rfl

theorem isConnecting_awaitStep (w : Wait) (c : Channel) :
    (awaitStep k w c).1.isConnecting = false := by
  unfold awaitStep
  split <;> rfl

/-- A step is taken on a connection, which it keeps. -/
theorem socket_of_step (moved : t.step k = some t') :
    t.stage.isLinked = true ∧ t'.stage.isConnecting = false ∧ t'.socketOpen = t.socketOpen ∧
      t'.channel.isSome = t.channel.isSome := by
  simp only [step] at moved
  split at moved
  · cases moved
  · rename_i c channel
    split at moved
    · rename_i hstage
      cases moved
      exact ⟨by simp [hstage, Stage.isLinked], isConnecting_checkpoint rfl, rfl, rfl⟩
    · rename_i rest hstage
      cases moved
      exact ⟨by simp [hstage, Stage.isLinked], isConnecting_writeStep rest c, rfl,
        by simp [standingOn, channel]⟩
    · rename_i hstage
      cases moved
      exact ⟨by simp [hstage, Stage.isLinked], isConnecting_checkpoint rfl, rfl, rfl⟩
    · rename_i hstage
      cases moved
      exact ⟨by simp [hstage, Stage.isLinked], isConnecting_searchStep c, rfl,
        by simp [standingOn, channel]⟩
    · rename_i w hstage
      cases moved
      exact ⟨by simp [hstage, Stage.isLinked], isConnecting_awaitStep w c, rfl,
        by simp [standingOn, channel]⟩
    · cases moved

/-- Only a trip that is under way has a move. -/
theorem isUnderWay_of_move? (moved : t.move? k mv = some t') : t.stage.isUnderWay = true := by
  cases mv with
  | refuse e =>
      simp only [move?, refuse] at moved
      split at moved
      · rename_i hstage
        simp [hstage, Stage.isUnderWay, Stage.isConnecting]
      · cases moved
  | connect r =>
      simp only [move?, connect] at moved
      split at moved
      · rename_i hstage
        simp [hstage, Stage.isUnderWay, Stage.isConnecting]
      · cases moved
  | step => simp [Stage.isUnderWay, (socket_of_step moved).1]

/-- A move of a trip that is under way opens the socket of its connection, or leaves both as they
were. -/
theorem opens_or_keeps (moved : t.move? k mv = some t') :
    (t.stage.isConnecting = true ∧ t'.stage = .connected ∧ t'.socketOpen = true ∧
        t'.channel.isSome = true) ∨
      (t'.socketOpen = t.socketOpen ∧ t'.channel.isSome = t.channel.isSome ∧
        (t'.stage.isConnecting = true → t.stage.isConnecting = true) ∧
        (t'.stage.isLinked = true → t.stage.isLinked = true)) := by
  cases mv with
  | refuse e =>
      simp only [move?, refuse] at moved
      split at moved
      · cases moved
        exact .inr ⟨rfl, rfl, by simp [standing, Stage.isConnecting],
          by simp [standing, Stage.isLinked]⟩
      · cases moved
  | connect r =>
      simp only [move?, connect] at moved
      split at moved
      · rename_i s w hstage
        have connecting : t.stage.isConnecting = true := by simp [hstage, Stage.isConnecting]
        split at moved
        · cases moved
          exact .inr ⟨rfl, rfl, fun _ => connecting, by simp [standing, Stage.isLinked]⟩
        · split at moved
          · cases moved
            exact .inr ⟨rfl, rfl, fun _ => connecting, by simp [standing, Stage.isLinked]⟩
          · cases moved
            exact .inr ⟨rfl, rfl, fun _ => connecting, by simp [standing, Stage.isLinked]⟩
          · -- Here alone a socket comes in: the attempt was answered with a stream.
            cases moved
            exact .inl ⟨connecting, rfl, rfl, rfl⟩
      · cases moved
  | step =>
      rcases socket_of_step moved with ⟨linked, further, socket, channel⟩
      exact .inr ⟨socket, channel, fun connecting => absurd connecting (by simp [further]),
        fun _ => linked⟩

end Trip
end LineExchange
