import LineExchange.Proofs.Cancel.Attention
import LineExchange.Proofs.Channel.Forgetting
import LineExchange.Proofs.Channel.Limit

/-!
# Interruption — what reads come to once the latch is raised

A channel searches its inbox before it looks at its latch, and looks at the latch before the stream.
So once the latch is raised its reads give out the lines that have come, and then nothing more.
This file defines:

* `Channel.refusal` — the error of a read that has no line to give out and must not wait for one;
* `Channel.Interrupts` — what a poll of a read comes to once the latch is raised;
* `Channel.readAnswers` — what the reads of a run came to;
* `Channel.leavings` — what reads come to that take what the inbox holds and must not wait;
* `Channel.RaisedIn` — runs in which the holder raised the latch before it let go of it;
* `Channel.State.Interrupted` — a state in which the latch is raised and no read will miss that.

A step that polls a read in such a state does not wait and takes nothing off the stream
(`State.Interrupted.read`), and every step leads to such a state again, so all reads of a later run
are known (`State.Interrupted.run`).  The latch is raised exactly behind those runs
(`watched_raised_iff`), and no read is cancelled behind any other.
-/

namespace LineExchange
namespace Channel

/-! ## Polls of a read -/

/-- The error of a read that has no line among the bytes `begun` and must not wait for one. -/
def refusal (begun : Bytes) : ChannelError :=
  if Inbox.capacity ≤ begun.length then .bufferFull else .cancelled

/-- What becomes of a channel, and what is told, when a read is polled once the latch is raised: the
stream is left alone, and either the first line is given out, or there is none and the bytes are
kept. -/
inductive Interrupts (d : UInt8) (c c' : Channel) : Option Answer → Prop where
  | line {line : Bytes} (wire : c'.wire = c.wire) (isLine : Line.IsLine d line)
      (split : line ++ c'.inbox.bytes = c.inbox.bytes) : Interrupts d c c' (some (.line line))
  | refused (wire : c'.wire = c.wire) (free : d ∉ c.inbox.bytes)
      (kept : c'.inbox.bytes = c.inbox.bytes) :
      Interrupts d c c' (some (.failed (refusal c.inbox.bytes)))

variable {l : Latch} {d : UInt8} {wait wait' : Wait} {c c' : Channel}

/-- A read that waits has polled its wait for the latch. -/
theorem poll_of_await_pending (h : c.await l wait = (c', .pending wait')) :
    c.signal.poll l wait = (c'.signal, some wait') := by
  unfold await at h
  split at h
  · cases h
  · rename_i polled
    unfold receive at h
    split at h <;> cases h
    exact polled

/-- A read that goes on to wait attends. -/
theorem attends_of_resumeRead (attends : c.signal.Attends l wait)
    (h : c.resumeRead l d wait = (c', .pending wait')) : c'.signal.Attends l wait' := by
  fun_induction resumeRead l d wait c with
  | case1 => cases h
  | case2 wait c c₁ w awaited =>
      cases h
      exact Signal.attends_of_poll attends (poll_of_await_pending awaited)
  | case3 => cases h
  | case4 => cases h
  | case5 wait c c₁ awaited i offered ih => exact ih trivial h

/-- A read that begins to wait attends. -/
theorem attends_of_pollRead (h : c.pollRead l d = (c', .pending wait')) :
    c'.signal.Attends l wait' := by
  unfold pollRead at h
  split at h
  · cases h
  · cases h
  · -- A wait that was not polled yet has nothing to miss.
    have unpolled : ∀ s : Signal, s.Attends l .unpolled := fun _ => trivial
    exact attends_of_resumeRead (unpolled _) h

/-- A read that goes on is cancelled at once. -/
theorem resumeRead_of_raised (raised : l.raised = true) (attends : c.signal.Attends l wait) :
    c.resumeRead l d wait = ({ c with signal := ⟨l.version⟩ }, .ready (.error .cancelled)) := by
  have cancelled : c.await l wait = ({ c with signal := ⟨l.version⟩ }, .failed .cancelled) := by
    simp only [await, attends.poll_of_raised raised]
  rw [resumeRead]
  split
  · rename_i failed
    cases cancelled.symm.trans failed
    rfl
  · rename_i waits
    cases cancelled.symm.trans waits
  · rename_i arrived
    cases cancelled.symm.trans arrived

theorem Interrupts.wire {r : Option Answer} (h : Interrupts d c c' r) : c'.wire = c.wire := by
  cases h <;> assumption

/-- Nothing matters but the stream and the bytes. -/
theorem Interrupts.of_kept {c₁ : Channel} {r : Option Answer} (h : Interrupts d c₁ c' r)
    (wire : c₁.wire = c.wire) (kept : c₁.inbox.bytes = c.inbox.bytes) : Interrupts d c c' r := by
  cases h with
  | line wire' isLine split => exact .line (wire'.trans wire) isLine (split.trans kept)
  | refused wire' free kept' =>
      rw [kept] at free kept' ⊢
      exact .refused (wire'.trans wire) free kept'

/-- A read in flight has looked at all of the bytes, and there is room for more. -/
theorem interrupts_resumeRead (raised : l.raised = true) (attends : c.signal.Attends l wait)
    (clean : d ∉ c.inbox.seen) (asks : c.inbox.Asks) :
    Interrupts d c (c.resumeRead l d wait).1 (c.resumeRead l d wait).2.answer? := by
  have free : d ∉ c.inbox.bytes := Inbox.not_mem_bytes_of_looked clean asks.looked
  have room : refusal c.inbox.bytes = .cancelled := if_neg (Nat.not_le.2 asks.room)
  rw [resumeRead_of_raised raised attends, ReadPoll.answer?, ← room]
  exact .refused rfl free rfl

theorem interrupts_pollRead (raised : l.raised = true) (clean : d ∉ c.inbox.seen) :
    Interrupts d c (c.pollRead l d).1 (c.pollRead l d).2.answer? := by
  cases offered : c.inbox.offer d with
  | mk i o =>
      have bytes := Inbox.given_append_bytes offered
      rcases Inbox.offer_spec clean offered with ⟨-, clean', isLine⟩
      cases o with
      | line line =>
          simp only [pollRead, offer, offered]
          exact .line rfl (isLine line rfl) bytes
      | full =>
          simp only [pollRead, offer, offered]
          have isFull : i.IsFull := Inbox.isFull_of_offer offered
          have kept : i.bytes = c.inbox.bytes := bytes
          have free := Inbox.not_mem_bytes_of_looked clean' isFull.looked
          have full : refusal c.inbox.bytes = .bufferFull := if_pos (kept ▸ isFull.full)
          rw [ReadPoll.answer?, ← full]
          exact .refused rfl (kept ▸ free) kept
      | more =>
          -- From here on it is a read in flight.
          simp only [pollRead, offer, offered]
          have kept : i.bytes = c.inbox.bytes := bytes
          have unpolled : Signal.Attends l (Channel.mk c.wire i c.signal).signal .unpolled :=
            trivial
          have resumed := interrupts_resumeRead raised unpolled clean' (Inbox.asks_of_offer offered)
          exact resumed.of_kept rfl kept

/-- A read that is cancelled found the latch raised. -/
theorem raised_of_resumeRead (h : c.resumeRead l d wait = (c', .ready (.error .cancelled))) :
    l.raised = true := by
  fun_induction resumeRead l d wait c with
  | case1 wait c c₁ e awaited =>
      cases h
      exact raised_of_await_cancelled awaited
  | case2 => cases h
  | case3 => cases h
  | case4 => cases h
  | case5 wait c c₁ awaited i offered ih => exact ih h

theorem raised_of_pollRead (h : c.pollRead l d = (c', .ready (.error .cancelled))) :
    l.raised = true := by
  unfold pollRead at h
  split at h
  · cases h
  · cases h
  · exact raised_of_resumeRead h

/-! ## Steps -/

variable {s : State} {a : Step}

def State.Attends (s : State) : Prop :=
  ∀ d wait, s.flight = some (.reading d wait) → s.channel.signal.Attends s.watched wait

/-- A channel watches the same latch all its life. -/
theorem watches_step (s : State) (a : Step) : (step s a).1.watches = s.watches := by
  by_cases changes : ∃ x, a = .change x
  · rcases changes with ⟨x, rfl⟩
    cases x with
    | raise => cases held : s.latch.held <;> simp [step, change, held]
    | _ => rfl
  · exact (around_step fun x here => changes ⟨x, here⟩).2

theorem watched_step (noRaise : a ≠ .change .raise) (noRelease : a ≠ .change .release) :
    (step s a).1.watched = s.watched := by
  rw [State.watched, State.watched, watches_step, latch_step noRaise noRelease]

/-- A read is in flight because it was polled, or because something happened around it. -/
theorem sought_of_reading (flying : (step s a).1.flight = some (.reading d wait)) :
    (∃ x, a = .change x) ∨ ∃ d', s.sought? a = some d' := by
  cases a with
  | change x => exact .inl ⟨x, rfl⟩
  | start op =>
      cases op with
      | read d' => exact .inr ⟨d', rfl⟩
      | write bs => exact absurd flying ((settleWrite_spec _ _ _ _).2.2 d wait)
  | poll =>
      cases before : s.flight with
      | none =>
          simp only [step, before] at flying
          cases flying
      | some f =>
          cases f with
          | reading d' wait' => exact .inr ⟨d', State.sought?_poll_eq_some_iff.2 ⟨wait', before⟩⟩
          | writing total rest =>
              simp only [step, before] at flying
              exact absurd flying ((settleWrite_spec _ _ _ _).2.2 d wait)
  | abandon =>
      cases before : s.flight with
      | none =>
          simp only [step, before] at flying
          cases flying
      | some f =>
          simp only [step, before] at flying
          cases flying

theorem signal_change (s : State) (x : Change) :
    (change s x).1.channel.signal = s.channel.signal := by
  cases x with
  | raise => cases held : s.latch.held <;> simp [change, held]
  | _ => rfl

/-- What may become of the latch that a channel watches. -/
theorem watched_change (s : State) (x : Change) :
    (step s (.change x)).1.watched = s.watched ∨
      s.watched.held = true ∧ (step s (.change x)).1.watched = s.watched.raise ∨
      (step s (.change x)).1.watched = s.watched.release := by
  have watches := watches_step s (.change x)
  by_cases watching : s.watches = true
  · simp only [State.watched, watches, if_pos watching]
    cases x with
    | raise =>
        by_cases held : s.latch.held = true
        · exact .inr (.inl ⟨held, by simp [step, change, held]⟩)
        · exact .inl (by simp [step, change, held])
    | release => exact .inr (.inr rfl)
    | _ => exact .inl rfl
  · exact .inl (by simp only [State.watched, watches, if_neg watching])

/-- What happens around a read leaves it attending. -/
theorem State.Attends.change (attends : s.Attends) (x : Change) :
    (Channel.step s (.change x)).1.Attends := by
  intro d wait flying
  have flight : (Channel.step s (.change x)).1.flight = s.flight := (change_spec s x).2.1
  have signal : (Channel.step s (.change x)).1.channel.signal = s.channel.signal :=
    signal_change s x
  have before := attends d wait (flight ▸ flying)
  rw [signal]
  rcases watched_change s x with same | ⟨held, raised⟩ | released
  · exact same ▸ before
  · exact raised ▸ before.raise held
  · exact released ▸ before.release

/-- Every step leaves a read in flight attending. -/
theorem State.Attends.step (attends : s.Attends) (a : Step) : (Channel.step s a).1.Attends := by
  intro d wait flying
  rcases sought_of_reading flying with ⟨x, rfl⟩ | ⟨d', sought⟩
  · exact attends.change x d wait flying
  · have same : (Channel.step s a).1.watched = s.watched := by
      refine watched_step ?_ ?_ <;> (rintro rfl; cases sought)
    rw [same]
    rcases step_of_sought sought with ⟨s₀, ⟨c, r⟩, stepped, polled⟩
    rw [stepped] at flying ⊢
    rw [(settleRead_spec s₀ d' c r).1]
    -- Only a poll that leaves its read waiting leaves a read in flight.
    rcases r with result | wait'
    · rcases (answer_settleRead s₀ d' c (.ready result)).2 d wait flying with ⟨w, pending⟩
      cases pending
    · cases flying
      rcases polled with begun | ⟨w, before, resumed⟩
      · exact attends_of_pollRead begun.symm
      · exact attends_of_resumeRead (attends _ w before) resumed.symm

/-- What becomes of the latch that a channel watches: once it is raised it stays so. -/
theorem raised_watched_step (raised : s.watched.raised = true) (a : Step) :
    (step s a).1.watched.raised = true := by
  by_cases changes : ∃ x, a = .change x
  · rcases changes with ⟨x, rfl⟩
    rcases watched_change s x with same | ⟨-, again⟩ | released
    · rw [same, raised]
    · rw [again, Latch.raised_raise]
    · rw [released, Latch.raised_release, raised]
  · have same : (step s a).1.watched = s.watched :=
      watched_step (fun here => changes ⟨_, here⟩) fun here => changes ⟨_, here⟩
    rw [same, raised]

/-- The latch is raised, all reads are for `d`, and no read in flight will miss anything. -/
structure State.Interrupted (d : UInt8) (s : State) : Prop where
  raised : s.watched.raised = true
  clean : s.Clean d
  attends : s.Attends
  asks : s.AsksInFlight

theorem State.Interrupted.step (interrupted : s.Interrupted d)
    (only : ∀ d', a = .start (.read d') → d' = d) : (Channel.step s a).1.Interrupted d where
  raised := raised_watched_step interrupted.raised a
  clean := (frames_step interrupted.clean only).clean
  attends := interrupted.attends.step a
  asks := interrupted.asks.step a

/-- A step that polls a read comes to what its poll comes to. -/
theorem State.Interrupted.read (interrupted : s.Interrupted d) (sought : s.sought? a = some d) :
    Interrupts d s.channel (Channel.step s a).1.channel (Channel.step s a).2.answer? := by
  rcases step_of_sought sought with ⟨s₀, ⟨c, r⟩, stepped, polled⟩
  rw [stepped, (settleRead_spec s₀ d c r).1, (answer_settleRead s₀ d c r).1]
  rcases polled with begun | ⟨wait, flying, resumed⟩
  · have interrupts := interrupts_pollRead interrupted.raised interrupted.clean.seen
    rwa [← begun] at interrupts
  · have interrupts := interrupts_resumeRead interrupted.raised
      (interrupted.attends d wait flying) interrupted.clean.seen (interrupted.asks d wait flying)
    rwa [← resumed] at interrupts

/-! ## Runs -/

/-- What the reads of a run came to, with none for a poll that left its read waiting. -/
def readAnswers (s : State) : List Step → List (Option Answer)
  | [] => []
  | a :: as =>
      ((s.sought? a).map fun _ => (step s a).2.answer?).toList ++ readAnswers (step s a).1 as

/-- What a read comes to that finds lines and then the bytes `begun`, and must not wait. -/
def leaving (begun : Bytes) : List Bytes → Answer
  | [] => .failed (refusal begun)
  | line :: _ => .line line

def leavings (begun : Bytes) (lines : List Bytes) (n : Nat) : List Answer :=
  (lines.take n).map .line ++ List.replicate (n - lines.length) (.failed (refusal begun))

/-- In the run the holder raised the latch before it let go of it. -/
def RaisedIn (steps : List Step) : Prop :=
  ∃ before after, steps = before ++ .change .raise :: after ∧ .change .release ∉ before

variable {as : List Step} {begun : Bytes} {lines : List Bytes}

theorem readAnswers_of_sought (sought : s.sought? a = some d) (as : List Step) :
    readAnswers s (a :: as) = (step s a).2.answer? :: readAnswers (step s a).1 as := by
  rw [readAnswers, sought]
  rfl

theorem readAnswers_of_unsought (unsought : s.sought? a = none) (as : List Step) :
    readAnswers s (a :: as) = readAnswers (step s a).1 as := by
  rw [readAnswers, unsought]
  rfl

/-- The first of them takes a line, if there is any, and leaves the others to the next. -/
theorem leavings_succ (begun : Bytes) (lines : List Bytes) (n : Nat) :
    leavings begun lines (n + 1) = leaving begun lines :: leavings begun lines.tail n := by
  cases lines with
  | nil => simp [leavings, leaving, List.replicate_succ]
  | cons line lines => simp [leavings, leaving]

theorem Interrupts.first {r : Option Answer} (h : Interrupts d c c' r)
    (bytes : c.inbox.bytes = lines.flatten ++ begun)
    (areLines : ∀ line ∈ lines, Line.IsLine d line) (free : d ∉ begun) :
    r = some (leaving begun lines) ∧ c'.inbox.bytes = lines.tail.flatten ++ begun := by
  cases lines with
  | nil =>
      have all : c.inbox.bytes = begun := bytes
      cases h with
      | line wire isLine split =>
          -- There is no line to be given out.
          rcases isLine with ⟨body, rfl, -⟩
          rw [all] at split
          exact absurd (by simp [← split]) free
      | refused wire hnone kept =>
          rw [all] at kept ⊢
          exact ⟨rfl, kept⟩
  | cons line lines =>
      have isLine := areLines line List.mem_cons_self
      have split : c.inbox.bytes = line ++ (lines.flatten ++ begun) := by
        rw [bytes, List.flatten_cons, List.append_assoc]
      cases h with
      | line wire isLine' split' =>
          obtain rfl := isLine.eq_of_append isLine' (split'.trans split)
          exact ⟨rfl, List.append_cancel_left (split'.trans split)⟩
      | refused wire hnone kept =>
          rcases isLine with ⟨body, rfl, -⟩
          exact absurd (by simp [split]) hnone

/-- All that later reads come to are the lines in the inbox and then the refusals. -/
theorem State.Interrupted.run (interrupted : s.Interrupted d)
    (only : ∀ d', Step.start (.read d') ∈ as → d' = d)
    (bytes : s.channel.inbox.bytes = lines.flatten ++ begun)
    (areLines : ∀ line ∈ lines, Line.IsLine d line) (free : d ∉ begun) :
    let t := (Channel.run s as).1
    let n := (readAnswers s as).length
    readAnswers s as = (leavings begun lines n).map some ∧
      t.channel.inbox.bytes = (lines.drop n).flatten ++ begun ∧
      t.channel.wire.arrivals = s.channel.wire.arrivals ++ script as := by
  -- By the steps, for every such state and all lines at once: a read takes the first of them.
  induction as generalizing s lines with
  | nil =>
      refine ⟨?_, bytes, ?_⟩
      · simp [readAnswers, leavings]
      · simp [Channel.run, script]
  | cons a as ih =>
      have onlyHere : ∀ d', a = .start (.read d') → d' = d := by
        intro d' here
        exact only d' (by simp [here])
      have onlyLater : ∀ d', Step.start (.read d') ∈ as → d' = d := by
        intro d' mem
        exact only d' (List.mem_cons_of_mem a mem)
      have next := interrupted.step onlyHere
      have scripts : script (a :: as) = a.script ++ script as := rfl
      cases sought : s.sought? a with
      | none =>
          rcases still_step sought with ⟨inbox, arrivals, -, -, -⟩
          rcases ih next onlyLater (inbox ▸ bytes) areLines with ⟨answers, kept, scripted⟩
          simp only [readAnswers_of_unsought sought, run_cons, scripts]
          rw [← List.append_assoc, ← arrivals]
          exact ⟨answers, kept, scripted⟩
      | some d' =>
          obtain rfl := interrupted.clean.sought onlyHere sought
          have interrupts := interrupted.read sought
          rcases interrupts.first bytes areLines free with ⟨answer, left⟩
          have areLines' : ∀ line ∈ lines.tail, Line.IsLine d' line := by
            intro line mem
            exact areLines line (List.mem_of_mem_tail mem)
          rcases ih next onlyLater left areLines' with ⟨answers, kept, scripted⟩
          simp only [readAnswers_of_sought sought, run_cons, scripts, script_of_sought sought,
            List.length_cons]
          rw [leavings_succ, List.map_cons, ← answer, ← answers, List.nil_append,
            ← interrupts.wire, ← List.drop_tail]
          exact ⟨rfl, kept, scripted⟩

/-! ## The latch of a run -/

theorem raisedIn_nil : ¬RaisedIn [] := by
  rintro ⟨before, after, split, -⟩
  simp at split

theorem raisedIn_cons : RaisedIn (a :: as) ↔
    a = .change .raise ∨ a ≠ .change .release ∧ RaisedIn as := by
  constructor
  · rintro ⟨before, after, split, unreleased⟩
    cases before with
    | nil => exact .inl (List.cons.inj split).1
    | cons b before =>
        rcases List.cons.inj split with ⟨rfl, split'⟩
        rw [List.mem_cons, not_or] at unreleased
        exact .inr ⟨Ne.symm unreleased.1, before, after, split', unreleased.2⟩
  · rintro (rfl | ⟨other, before, after, rfl, unreleased⟩)
    · exact ⟨[], as, rfl, List.not_mem_nil⟩
    · refine ⟨a :: before, after, rfl, ?_⟩
      rw [List.mem_cons, not_or]
      exact ⟨Ne.symm other, unreleased⟩

/-- The latch is raised behind a run if it was so before, or its holder raised it in the run. -/
theorem raised_run_iff : (run s as).1.latch.raised = true ↔
    s.latch.raised = true ∨ s.latch.held = true ∧ RaisedIn as := by
  -- By the steps: the first of them raises the latch, ends its being held, or does neither.
  induction as generalizing s with
  | nil => simp [run, raisedIn_nil]
  | cons a as ih =>
      rw [run_cons, ih, raisedIn_cons]
      by_cases raise : a = .change .raise
      · subst raise
        cases held : s.latch.held <;> simp [step, change, Latch.raise, held]
      · by_cases release : a = .change .release
        · subst release
          simp [step, change, Latch.release]
        · simp [latch_step raise release, raise, release]

theorem watches_run (s : State) (as : List Step) : (run s as).1.watches = s.watches := by
  induction as generalizing s with
  | nil => rfl
  | cons a as ih => rw [run_cons, ih, watches_step]

/-- A channel finds the latch raised behind the runs in which the holder raised it. -/
theorem watched_raised_iff {watches : Bool} :
    (run (.start watches) as).1.watched.raised = true ↔ watches = true ∧ RaisedIn as := by
  have raised : (run (.start watches) as).1.latch.raised = true ↔ RaisedIn as := by
    rw [raised_run_iff]
    simp [State.start, Latch.fresh]
  have same : (run (.start watches) as).1.watches = watches := watches_run _ _
  rw [State.watched, same]
  cases watches with
  | true => simp [raised]
  | false => simp [Latch.never]

theorem State.Attends.run (attends : s.Attends) (as : List Step) :
    (Channel.run s as).1.Attends := by
  induction as generalizing s with
  | nil => exact attends
  | cons a as ih => exact ih (attends.step a)

/-- A run in which the latch was raised leaves it so for all reads. -/
theorem interrupted_of_run {before : List Step} (raised : RaisedIn before)
    (only : ∀ d', Step.start (.read d') ∈ before → d' = d) :
    (run (.start true) before).1.Interrupted d where
  raised := watched_raised_iff.2 ⟨rfl, raised⟩
  clean := (runFrames_of_clean (clean_start d true) only).clean
  attends := by
    have fresh : (State.start true).Attends := fun d wait flying => by cases flying
    exact fresh.run before
  asks := by
    rcases metered_of_run true before with ⟨past, metered⟩
    exact metered.asks

/-- A step that cancels a read found the latch raised. -/
theorem raised_of_cancelled (sought : s.sought? a = some d)
    (cancelled : (step s a).2.answer? = some (.failed .cancelled)) : s.watched.raised = true := by
  rcases step_of_sought sought with ⟨s₀, ⟨c, r⟩, stepped, polled⟩
  rw [stepped, (answer_settleRead s₀ d c r).1] at cancelled
  have ended : r = .ready (.error .cancelled) := by
    rcases r with (e | line) | wait
    · cases cancelled
      rfl
    · cases cancelled
    · cases cancelled
  subst ended
  rcases polled with begun | ⟨wait, -, resumed⟩
  · exact raised_of_pollRead begun.symm
  · exact raised_of_resumeRead resumed.symm

/-- In every run of a channel.  First, once the latch that it watches was raised, and as long as
all reads, before and after, are for one delimiter: the reads of the later run, those that begin in
it and the one that was in flight, end at every poll, and come to the lines that the inbox held, one
after another, and then each to a refusal, which is a cancellation unless `Inbox.capacity` bytes or
more stand behind these lines; the inbox keeps all that is not given out, and of the stream nothing
is taken.  Second, no read of any run is cancelled unless the channel watches the latch and its
holder raised it before. -/
theorem raised_latch_ends_reads (watches : Bool) (before : List Step) :
    let s := (run (.start watches) before).1
    (watches = true → RaisedIn before → ∀ d after,
      (∀ d', .start (.read d') ∈ before ++ after → d' = d) →
        let lines := Line.segments d s.channel.inbox.bytes
        let begun := Line.tail d s.channel.inbox.bytes
        let t := (run s after).1
        let n := (readAnswers s after).length
        readAnswers s after = (leavings begun lines n).map some ∧
          t.channel.inbox.bytes = (lines.drop n).flatten ++ begun ∧
          t.channel.wire.arrivals = s.channel.wire.arrivals ++ script after) ∧
    ∀ d a, s.sought? a = some d → (step s a).2.answer? = some (.failed .cancelled) →
      watches = true ∧ RaisedIn before := by
  intro s
  constructor
  · rintro rfl raised d after only lines begun
    have onlyBefore : ∀ d', Step.start (.read d') ∈ before → d' = d :=
      fun d' mem => only d' (List.mem_append_left _ mem)
    have onlyAfter : ∀ d', Step.start (.read d') ∈ after → d' = d :=
      fun d' mem => only d' (List.mem_append_right _ mem)
    -- The inbox in lines and a begun one, which are those of the statement.
    rcases Line.exists_lines d s.channel.inbox.bytes with ⟨lines', begun', bytes, areLines, free⟩
    have sameLines : lines = lines' := by
      simp only [lines, bytes, Line.segments_flatten_append areLines, Line.segments_of_free free,
        List.append_nil]
    have sameBegun : begun = begun' := by
      simp only [begun, bytes, Line.tail_flatten_append areLines, Line.tail_of_free free]
    rw [sameLines, sameBegun]
    exact (interrupted_of_run raised onlyBefore).run onlyAfter bytes areLines free
  · intro d a sought cancelled
    exact watched_raised_iff.1 (raised_of_cancelled sought cancelled)

/-- A read that waits, and then one piece with two lines and the begin of another; the latch is
raised behind the first of them. -/
def lateRaise : List Step :=
  [.start (.read 10), .change (.feed 8 [97, 10, 98, 10, 99]), .poll, .start (.write [1]),
    .change .raise]

/-- The holder lets go, and more is to arrive, but all that comes is what the inbox held. -/
def readsBehind : List Step :=
  [.change .release, .start (.read 10), .change (.feed 8 [100, 10]), .start (.read 10),
    .start (.read 10)]

theorem reads_of_lateRaise :
    RaisedIn lateRaise ∧
      (∀ d', Step.start (.read d') ∈ lateRaise ++ readsBehind → d' = 10) ∧
      readAnswers (run (.start true) lateRaise).1 readsBehind =
        [some (.line [98, 10]), some (.failed .cancelled), some (.failed .cancelled)] ∧
      (run (run (.start true) lateRaise).1 readsBehind).1.channel.inbox.bytes = [99] := by
  have raised : RaisedIn lateRaise := ⟨lateRaise.dropLast, [], rfl, by decide⟩
  have only : ∀ d', Step.start (.read d') ∈ lateRaise ++ readsBehind → d' = 10 := by
    simp [lateRaise, readsBehind]
  rcases (raised_latch_ends_reads true lateRaise).1 rfl raised 10 readsBehind only with
    ⟨answers, kept, -⟩
  have held : (run (.start true) lateRaise).1.channel.inbox.bytes = [98, 10, 99] := by
    decide +kernel
  have polls : (readAnswers (run (.start true) lateRaise).1 readsBehind).length = 3 := by
    decide +kernel
  rw [held, polls] at answers kept
  exact ⟨raised, only, answers, kept⟩

end Channel
end LineExchange
