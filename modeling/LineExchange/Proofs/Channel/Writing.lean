import Mathlib.Data.List.ModifyLast
import LineExchange.Proofs.Channel.Limit
import LineExchange.Proofs.Channel.Posting

/-!
# Writing — what the writes of a channel send

A write may be polled many times, fail, or be given up, and nothing of its payload is sent twice or
out of order.  This file defines:

* `Channel.Writer` — what matters of a channel for its writes, with `Channel.Writer.step`;
* `Channel.Call` — a write of a run: its payload, what its polls sent, and what it came to;
* `Channel.note` and `Channel.callsFrom` — the writes behind a step and behind a run;
* `Channel.Step.isCancelling` — the steps of the latch's holder;
* `Channel.Ledger` — the calls account for all that was sent, each for a beginning of its payload.

Every step keeps the ledger (`Ledger.step`).  What a step does to the writes depends on nothing but
the writer (`writer_step`), and the steps of the latch's holder leave that as it is, so they may be
left out of a run (`calls_filter`).
-/

namespace LineExchange
namespace Channel

/-! ## What matters for writes -/

/-- The length of the payload, and the bytes that are left of it, of a write in flight. -/
def Flight.posted? : Flight → Option (Nat × Bytes)
  | .reading .. => none
  | .writing total rest => some (total, rest)

def WritePoll.posted? (total : Nat) : WritePoll → Option (Nat × Bytes)
  | .ready _ => none
  | .pending rest => some (total, rest)

def WritePoll.answer? (total : Nat) : WritePoll → Option Answer
  | .ready (.ok ()) => some (.written total)
  | .ready (.error e) => some (.failed e)
  | .pending _ => none

/-- What matters of a channel for its writes. -/
structure Writer where
  /-- The stream, without what is to be read. -/
  wire : Wire
  posted : Option (Nat × Bytes)
  deriving DecidableEq, Repr

def State.writer (s : State) : Writer :=
  ⟨s.channel.wire.withArrivals [], s.flight.bind Flight.posted?⟩

def Step.rescript : Step → Wire → Wire
  | .change (.allow u) => .allow u
  | .change (.failFlush e) => .failFlush e
  | _ => id

def Step.isChange : Step → Bool
  | .change _ => true
  | _ => false

def Step.isCancelling : Step → Bool
  | .change .raise | .change .release => true
  | _ => false

def Writer.posted? (w : Writer) : Step → Option (Nat × Bytes)
  | .start (.write bs) => some (bs.length, bs)
  | .poll => w.posted
  | _ => none

theorem sent_rescript (a : Step) (w : Wire) : (a.rescript w).sent = w.sent := by
  cases a with
  | change x => cases x <;> rfl
  | _ => rfl

def Writer.step (w : Writer) (a : Step) : Writer :=
  match w.posted? a with
  | some (total, rest) =>
      let (wire, r) := writeFrom rest w.wire
      ⟨wire, r.posted? total⟩
  | none => ⟨a.rescript w.wire, if a.isChange then w.posted else none⟩

variable {s t : State} {a : Step} {w : Writer} {total : Nat} {rest : Bytes}

theorem Writer.step_of_posted (posted : w.posted? a = some (total, rest)) :
    w.step a = ⟨(writeFrom rest w.wire).1, (writeFrom rest w.wire).2.posted? total⟩ := by
  rw [Writer.step, posted]

theorem Writer.step_of_unposted (unposted : w.posted? a = none) :
    w.step a = ⟨a.rescript w.wire, if a.isChange then w.posted else none⟩ := by
  rw [Writer.step, unposted]

/-- How a write that was polled is shown. -/
theorem writer_settleWrite (s : State) (total : Nat) (c : Channel) (r : WritePoll) :
    (entryOf (settleWrite s total (c, r))).1.writer =
        ⟨c.wire.withArrivals [], r.posted? total⟩ ∧
      (entryOf (settleWrite s total (c, r))).2.answer? = r.answer? total := by
  rcases r with (e | u) | rest <;> exact ⟨rfl, rfl⟩

theorem writer_settleRead (s : State) (d : UInt8) (c : Channel) (r : ReadPoll) :
    (entryOf (settleRead s d (c, r))).1.writer = ⟨c.wire.withArrivals [], none⟩ := by
  rcases r with (e | line) | wait <;> rfl

/-- A step that polls a write begins it or goes on with it. -/
theorem step_of_posted (posted : s.writer.posted? a = some (total, rest)) :
    ∃ s₀, step s a = entryOf (settleWrite s₀ total (s.channel.pollWrite rest)) := by
  cases a with
  | start op =>
      cases op with
      | read d => cases posted
      | write bs =>
          cases posted
          exact ⟨_, rfl⟩
  | poll =>
      have flying : s.flight.bind Flight.posted? = some (total, rest) := posted
      rcases Option.bind_eq_some_iff.1 flying with ⟨f, inFlight, writing⟩
      cases f with
      | reading d wait => cases writing
      | writing total' rest' =>
          cases writing
          exact ⟨s, by simp [step, inFlight, resume]⟩
  | _ => cases posted

theorem writer_of_posted (posted : s.writer.posted? a = some (total, rest)) :
    (step s a).1.writer = s.writer.step a ∧
      (step s a).2.answer? = (writeFrom rest s.writer.wire).2.answer? total := by
  rcases step_of_posted posted with ⟨s₀, stepped⟩
  -- The writer's stream has nothing to read, and the poll does the same to it.
  have same : writeFrom rest s.writer.wire = ((writeFrom rest s.channel.wire).1.withArrivals [],
      (writeFrom rest s.channel.wire).2) := writeFrom_withArrivals [] rest s.channel.wire
  rw [stepped, Writer.step_of_posted posted, same]
  exact writer_settleWrite s₀ total (s.channel.pollWrite rest).1 (s.channel.pollWrite rest).2

/-- A step that polls a write comes to what its poll comes to. -/
theorem posts_of_posted (posted : s.writer.posted? a = some (total, rest)) :
    ∃ r, Posts rest s.channel.wire (step s a).1.channel.wire r ∧
      (step s a).2.answer? = r.answer? total ∧ (step s a).1.writer.posted = r.posted? total := by
  rcases step_of_posted posted with ⟨s₀, stepped⟩
  have channel := (settleWrite_spec s₀ total (s.channel.pollWrite rest).1
    (s.channel.pollWrite rest).2).1
  rcases writer_settleWrite s₀ total (s.channel.pollWrite rest).1 (s.channel.pollWrite rest).2 with
    ⟨writer, answer⟩
  rw [← stepped] at channel writer answer
  refine ⟨(s.channel.pollWrite rest).2, ?_, answer, congrArg Writer.posted writer⟩
  rw [channel]
  exact posts_writeFrom rest s.channel.wire

theorem writer_change (s : State) (x : Change) :
    (Channel.step s (.change x)).1.writer =
      ⟨(Step.change x).rescript s.writer.wire, s.writer.posted⟩ := by
  cases x with
  | raise =>
      cases held : s.latch.held <;>
        simp [Channel.step, change, held, Step.rescript, State.writer]
  | _ => rfl

/-- A read that is polled gives up a write in flight, and does nothing to its stream. -/
theorem writer_of_sought {d : UInt8} (sought : s.sought? a = some d) :
    (Channel.step s a).1.writer = ⟨s.writer.wire, none⟩ := by
  rcases step_of_sought sought with ⟨s₀, ⟨c, r⟩, stepped, polled⟩
  have kept : c.wire.withArrivals [] = s.channel.wire.withArrivals [] := by
    rcases polled with begun | ⟨wait, -, resumed⟩
    · have kept := wire_pollRead s.watched d s.channel
      rw [← begun] at kept
      rw [kept]
      rfl
    · have kept := wire_resumeRead s.watched d wait s.channel
      rw [← resumed] at kept
      rw [kept]
      rfl
  rw [stepped, writer_settleRead, kept]
  rfl

/-- What a step does to the writes depends on nothing else. -/
theorem writer_step (s : State) (a : Step) : (Channel.step s a).1.writer = s.writer.step a := by
  cases posted : s.writer.posted? a with
  | some p => exact (writer_of_posted posted).1
  | none =>
      rw [Writer.step_of_unposted posted]
      cases a with
      | change x => exact writer_change s x
      | start op =>
          cases op with
          | read d => exact writer_of_sought rfl
          | write bs => cases posted
      | poll =>
          cases flying : s.flight with
          | none => simp [Channel.step, flying, State.writer, Step.rescript, Step.isChange]
          | some f =>
              cases f with
              | reading d wait =>
                  exact writer_of_sought (State.sought?_poll_eq_some_iff.2 ⟨wait, flying⟩)
              | writing total rest =>
                  simp [Writer.posted?, State.writer, flying, Flight.posted?] at posted
      | abandon =>
          cases flying : s.flight <;>
            simp [Channel.step, flying, State.writer, Step.rescript, Step.isChange]

/-- The latch's holder does nothing to the writes. -/
theorem Writer.step_of_isCancelling (w : Writer) (cancelling : a.isCancelling = true) :
    w.step a = w := by
  cases a with
  | change x =>
      cases x with
      | raise => rfl
      | release => rfl
      | _ => cases cancelling
  | _ => cases cancelling

/-! ## The writes of a run -/

structure Call where
  payload : Bytes
  /-- What was sent while it was polled. -/
  sent : Bytes
  /-- What it came to, unless it still waits or was given up. -/
  answer : Option Answer
  deriving DecidableEq, Repr

namespace Call

def begin (payload : Bytes) : Call :=
  ⟨payload, [], none⟩

def goOn (more : Bytes) (answer : Option Answer) (c : Call) : Call :=
  { c with sent := c.sent ++ more, answer := answer }

/-- What was sent is a beginning of the payload; it is all of it if the write came to its end, and
its length is told then. -/
def IsExact (c : Call) : Prop :=
  c.sent <+: c.payload ∧
    ∀ n, c.answer = some (.written n) → c.sent = c.payload ∧ n = c.payload.length

end Call

def Step.payload? : Step → Option Bytes
  | .start (.write bs) => some bs
  | _ => none

/-- The calls behind a step: with one more if a write begins, of which the last goes on if a write
is polled. -/
def note (s : State) (calls : List Call) (a : Step) : List Call :=
  let opened := calls ++ (a.payload?.map Call.begin).toList
  match s.writer.posted? a with
  | some _ =>
      let sent := (step s a).1.channel.wire.sent.drop s.channel.wire.sent.length
      opened.modifyLast (Call.goOn sent (step s a).2.answer?)
  | none => opened

/-- The calls behind a run from `s`, when `calls` were there before. -/
def callsFrom (calls : List Call) (s : State) : List Step → List Call
  | [] => calls
  | a :: as => callsFrom (note s calls a) (step s a).1 as

/-- The calls account for all that was sent, each for a beginning of its payload, and the last for
what is in flight. -/
structure Ledger (calls : List Call) (w : Writer) : Prop where
  sent : w.wire.sent = calls.flatMap Call.sent
  exact : ∀ c ∈ calls, c.IsExact
  posted : ∀ total rest, w.posted = some (total, rest) → ∃ earlier c,
    calls = earlier ++ [c] ∧ c.sent ++ rest = c.payload ∧ total = c.payload.length

variable {calls : List Call} {as : List Step} {c : Call} {bs : Bytes}

/-- The call that a poll goes on with is exact again. -/
theorem Call.isExact_goOn {more left : Bytes} {r : WritePoll}
    (whole : c.sent ++ (more ++ left) = c.payload) (keeps : Keeps left r) :
    (c.goOn more (r.answer? c.payload.length)).IsExact := by
  rw [← List.append_assoc] at whole
  refine ⟨⟨left, whole⟩, ?_⟩
  intro n written
  rcases r with (e | u) | rest
  · cases written
  · cases written
    obtain rfl : left = [] := keeps
    rw [List.append_nil] at whole
    exact ⟨whole, rfl⟩
  · cases written

/-- The call with which a poll goes on: one that begins, or the last of those that were there. -/
theorem Ledger.opened (ledger : Ledger calls w) (posted : w.posted? a = some (total, rest)) :
    ∃ earlier c, calls ++ (a.payload?.map Call.begin).toList = earlier ++ [c] ∧
      w.wire.sent = earlier.flatMap Call.sent ++ c.sent ∧ (∀ c' ∈ earlier, c'.IsExact) ∧
      c.sent ++ rest = c.payload ∧ total = c.payload.length := by
  cases a with
  | start op =>
      cases op with
      | read d => cases posted
      | write bs =>
          cases posted
          refine ⟨calls, .begin _, rfl, ?_, ledger.exact, rfl, rfl⟩
          rw [ledger.sent]
          exact (List.append_nil _).symm
  | poll =>
      rcases ledger.posted total rest posted with ⟨earlier, c, rfl, whole, length⟩
      refine ⟨earlier, c, List.append_nil _, ?_, ?_, whole, length⟩
      · rw [ledger.sent, List.flatMap_append, List.flatMap_singleton]
      · intro c' mem
        exact ledger.exact c' (List.mem_append_left _ mem)
  | _ => cases posted

/-- Every step keeps the ledger. -/
theorem Ledger.step (ledger : Ledger calls s.writer) (a : Step) :
    Ledger (note s calls a) (Channel.step s a).1.writer := by
  cases posted : s.writer.posted? a with
  | none =>
      -- A write in flight waits on, or it is given up and its call stays as it is.
      have same : note s calls a = calls := by
        have noPayload : a.payload? = none := by
          cases a with
          | start op =>
              cases op with
              | read d => rfl
              | write bs => cases posted
          | _ => rfl
        simp [note, posted, noPayload]
      rw [same, writer_step, Writer.step_of_unposted posted]
      refine ⟨?_, ledger.exact, ?_⟩
      · rw [← ledger.sent]
        exact sent_rescript a s.writer.wire
      · intro total rest kept
        split at kept
        · exact ledger.posted total rest kept
        · cases kept
  | some p =>
      rcases p with ⟨total, rest⟩
      rcases posts_of_posted posted with ⟨r, posts, answer, waiting⟩
      rcases posts.sends with ⟨more, left, sent, rfl, keeps⟩
      -- What the poll sent goes to the account of the call that is the last one now.
      rcases ledger.opened posted with ⟨earlier, c, opened, before, hexact, whole, rfl⟩
      have noted : note s calls a = earlier ++ [c.goOn more (Channel.step s a).2.answer?] := by
        simp only [note, posted, opened, sent, List.drop_left]
        exact List.modifyLast_concat _ _ _
      rw [noted]
      refine ⟨?_, ?_, ?_⟩
      · have sent' : (Channel.step s a).1.writer.wire.sent = s.writer.wire.sent ++ more := sent
        rw [sent', before, List.flatMap_append, List.flatMap_singleton, List.append_assoc]
        rfl
      · intro c' mem
        rcases List.mem_append.1 mem with old | new
        · exact hexact c' old
        · rw [List.mem_singleton.1 new, answer]
          exact Call.isExact_goOn whole keeps
      · intro total rest waits
        rw [waiting] at waits
        cases r with
        | ready result => cases waits
        | pending rest' =>
            cases waits
            obtain rfl : left = rest := keeps
            rw [← List.append_assoc] at whole
            exact ⟨earlier, _, rfl, whole, rfl⟩

theorem Ledger.run (ledger : Ledger calls s.writer) (as : List Step) :
    Ledger (callsFrom calls s as) (Channel.run s as).1.writer := by
  induction as generalizing calls s with
  | nil => exact ledger
  | cons a as ih => exact ih (ledger.step a)

theorem ledger_of_run (watches : Bool) (steps : List Step) :
    Ledger (callsFrom [] (.start watches) steps) (run (.start watches) steps).1.writer := by
  have fresh : Ledger [] (State.start watches).writer := by
    refine ⟨rfl, by simp, ?_⟩
    intro total rest posted
    cases posted
  exact fresh.run steps

theorem payload_modifyLast (more : Bytes) (answer : Option Answer) (calls : List Call) :
    (calls.modifyLast (Call.goOn more answer)).map Call.payload = calls.map Call.payload := by
  rcases calls.eq_nil_or_concat with rfl | ⟨earlier, c, rfl⟩
  · rfl
  · rw [List.concat_eq_append, List.modifyLast_concat, List.map_append, List.map_append]
    rfl

theorem payload_note (s : State) (calls : List Call) (a : Step) :
    (note s calls a).map Call.payload = calls.map Call.payload ++ a.payload?.toList := by
  have opened : (calls ++ (a.payload?.map Call.begin).toList).map Call.payload =
      calls.map Call.payload ++ a.payload?.toList := by
    cases a.payload? <;> simp [Call.begin]
  unfold note
  split
  · rw [payload_modifyLast, opened]
  · exact opened

/-- The calls are the writes that begin. -/
theorem payload_callsFrom (calls : List Call) (s : State) (as : List Step) :
    (callsFrom calls s as).map Call.payload =
      calls.map Call.payload ++ as.filterMap Step.payload? := by
  induction as generalizing calls s with
  | nil => exact (List.append_nil _).symm
  | cons a as ih =>
      rw [callsFrom, ih, payload_note, List.append_assoc, List.filterMap_cons]
      cases a.payload? <;> rfl

/-! ## Runs with other steps of the latch's holder -/

theorem note_of_isCancelling (s : State) (calls : List Call) (cancelling : a.isCancelling = true) :
    note s calls a = calls := by
  cases a with
  | change x => simp [note, Writer.posted?, Step.payload?]
  | _ => cases cancelling

theorem note_congr (same : s.writer = t.writer) (calls : List Call) (a : Step) :
    note s calls a = note t calls a := by
  have sent : s.channel.wire.sent = t.channel.wire.sent := congrArg (fun w => w.wire.sent) same
  have stepped : (step s a).1.writer = (step t a).1.writer := by
    rw [writer_step, writer_step, same]
  have sent' : (step s a).1.channel.wire.sent = (step t a).1.channel.wire.sent :=
    congrArg (fun w => w.wire.sent) stepped
  unfold note
  rw [← same, sent, sent']
  cases posted : s.writer.posted? a with
  | none => rfl
  | some p =>
      have answer : (step s a).2.answer? = (step t a).2.answer? := by
        rw [(writer_of_posted posted).2, (writer_of_posted (same ▸ posted)).2, same]
      rw [answer]

/-- The steps of the latch's holder may be left out. -/
theorem calls_filter (same : s.writer = t.writer) (calls : List Call) (as : List Step) :
    callsFrom calls s as = callsFrom calls t (as.filter (!·.isCancelling)) ∧
      (run s as).1.writer = (run t (as.filter (!·.isCancelling))).1.writer := by
  -- By the steps, for any two states with the same writer: the run on the left goes ahead alone
  -- where a step is left out.
  induction as generalizing s t calls with
  | nil => exact ⟨rfl, same⟩
  | cons a as ih =>
      cases cancelling : a.isCancelling with
      | true =>
          have still : (step s a).1.writer = t.writer := by
            rw [writer_step, Writer.step_of_isCancelling _ cancelling, same]
          rw [List.filter_cons_of_neg (by simp [cancelling]), callsFrom,
            note_of_isCancelling s calls cancelling]
          exact ih still calls
      | false =>
          have stepped : (step s a).1.writer = (step t a).1.writer := by
            rw [writer_step, writer_step, same]
          rw [List.filter_cons_of_pos (by simp [cancelling]), callsFrom, callsFrom,
            note_congr same]
          exact ih stepped _

/-- In every run of a channel.  First, the writes that began have sent all that was sent, one after
another, and each a beginning of its payload, which is all of it if the write came to its end; then
its length is told.  Second, a write that comes to its end has flushed the stream behind its last
byte, and one of which the stream takes nothing at all fails for that reason.  Third, the same is
sent, and the writes come to the same, in every run that differs only in what the latch's holder
does, whether the channel watches the latch or not. -/
theorem writes_are_exact (watches : Bool) (steps : List Step) :
    let s := (run (.start watches) steps).1
    let calls := callsFrom [] (.start watches) steps
    (calls.map Call.payload = steps.filterMap Step.payload? ∧
      s.channel.wire.sent = calls.flatMap Call.sent ∧ ∀ c ∈ calls, c.IsExact) ∧
    (∀ a total rest, s.writer.posted? a = some (total, rest) → let t := (step s a).1
      (∀ n, (step s a).2.answer? = some (.written n) → ∃ w : Wire,
        w.sent = s.channel.wire.sent ++ rest ∧ w.flushes = s.channel.wire.flushes ∧
          w.flush = (t.channel.wire, none)) ∧
      ∀ used, s.channel.wire.uptakes = used ++ t.channel.wire.uptakes → .atMost 0 ∈ used →
        (step s a).2.answer? = some (.failed (.io (.bare .writeZero)))) ∧
    ∀ watches' steps', steps'.filter (!·.isCancelling) = steps.filter (!·.isCancelling) →
      callsFrom [] (.start watches') steps' = calls ∧
        (run (.start watches') steps').1.channel.wire.sent = s.channel.wire.sent := by
  intro s calls
  have ledger := ledger_of_run watches steps
  refine ⟨⟨payload_callsFrom [] _ steps, ledger.sent, ledger.exact⟩, ?_, ?_⟩
  · intro a total rest posted t
    rcases posts_of_posted posted with ⟨r, posts, answer, -⟩
    rw [answer]
    constructor
    · intro n written
      have ended : r = .ready (.ok ()) := by
        rcases r with (e | u) | rest
        · cases written
        · rfl
        · cases written
      rw [ended] at posts
      exact posts.flush
    · intro used uptakes zero
      rw [posts.eq_writeZero uptakes zero]
      rfl
  · intro watches' steps' same
    have fresh : (State.start watches').writer = (State.start watches).writer := rfl
    -- Both runs are the same as the one without the steps that cancel.
    rcases calls_filter fresh [] steps' with ⟨calls', writer'⟩
    rcases calls_filter rfl [] steps with ⟨calls'', writer''⟩
    rw [same] at calls' writer'
    exact ⟨calls'.trans calls''.symm, congrArg (fun w => w.wire.sent) (writer'.trans writer''.symm)⟩

/-- A write that is taken in two parts with a wait between them, one that is given up behind its
first byte, one that ends because its flush fails, and one of which nothing is taken. -/
def choppyWrites : List Step :=
  [.change (.allow (.atMost 2)), .change (.allow .blocked), .start (.write [1, 2, 3]), .poll,
    .change (.allow (.atMost 1)), .change (.allow .blocked), .start (.write [4, 5]), .abandon,
    .change (.failFlush (.bare .brokenPipe)), .start (.write [6]), .change (.allow (.atMost 0))]

def raisedWrites : List Step :=
  choppyWrites.take 3 ++ [.change .raise, .change .release] ++ choppyWrites.drop 3

theorem writes_of_choppyWrites :
    callsFrom [] (.start true) raisedWrites =
        [⟨[1, 2, 3], [1, 2, 3], some (.written 3)⟩, ⟨[4, 5], [4], none⟩,
          ⟨[6], [6], some (.failed (.io (.bare .brokenPipe)))⟩] ∧
      (run (.start true) raisedWrites).1.channel.wire.sent = [1, 2, 3, 4, 6] ∧
      (step (run (.start true) choppyWrites).1 (.start (.write [7]))).2.answer? =
        some (.failed (.io (.bare .writeZero))) := by
  rcases writes_are_exact true choppyWrites with ⟨⟨-, sent, -⟩, posts, others⟩
  have calls : callsFrom [] (.start true) choppyWrites =
      [⟨[1, 2, 3], [1, 2, 3], some (.written 3)⟩, ⟨[4, 5], [4], none⟩,
        ⟨[6], [6], some (.failed (.io (.bare .brokenPipe)))⟩] := by decide +kernel
  have same : raisedWrites.filter (!·.isCancelling) = choppyWrites.filter (!·.isCancelling) := by
    decide +kernel
  rcases others true raisedWrites same with ⟨calls', sent'⟩
  have last := (posts (.start (.write [7])) 1 [7] rfl).2 [.atMost 0]
  refine ⟨calls'.trans calls, ?_, last (by decide +kernel) (by decide)⟩
  rw [sent', sent, calls]
  decide

end Channel
end LineExchange
