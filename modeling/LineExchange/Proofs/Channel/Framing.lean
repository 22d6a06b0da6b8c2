import LineExchange.Proofs.Channel.Scanning

/-!
# Framing — a channel gives out the segments of what its stream delivers

However the bytes of a stream are cut into pieces, and however reads are begun, polled, given up,
cancelled and mixed with writes, a channel that reads for one delimiter gives out the segments of
the delivered bytes in their order.  This file defines:

* `Line.segments` — the parts of a byte string that end in the delimiter;
* `Channel.State.sought?` — the delimiter that a step looks for, if it polls a read;
* `Channel.Still` — what a step does that polls no read;
* `Channel.lines`, `Channel.delivered`, `Channel.fed` — what the reads of a run gave out, what its
  stream delivered, and what was put in the script;
* `Channel.Frames` — what one step does to these.

Every step does that (`frames_step`), and it adds up over a run (`framing_of_run`).
-/

namespace LineExchange

namespace Line

variable {d : UInt8} {line line' rest rest' : Bytes}

/-- The parts of `bs` that end in `d`, each with its `d`. -/
def segments (d : UInt8) (bs : Bytes) : List Bytes :=
  (bs.splitOn d).dropLast.map (· ++ [d])

theorem segments_append (h : IsLine d line) :
    segments d (line ++ rest) = line :: segments d rest := by
  rcases h with ⟨body, rfl, free⟩
  rw [segments, List.append_assoc, List.singleton_append,
    List.splitOn_append_cons_self_of_not_mem free,
    List.dropLast_cons_of_ne_nil (List.splitOn_ne_nil d rest), List.map_cons]
  rfl

/-- Bytes begin with one line. -/
theorem IsLine.eq_of_append (isLine : IsLine d line) (isLine' : IsLine d line')
    (same : line' ++ rest' = line ++ rest) : line' = line := by
  have parts := congrArg (segments d) same
  rw [segments_append isLine, segments_append isLine'] at parts
  exact (List.cons.inj parts).1

/-- The first segments are the lines that stand first. -/
theorem segments_flatten_append {lines : List Bytes} (h : ∀ line ∈ lines, IsLine d line) :
    segments d (lines.flatten ++ rest) = lines ++ segments d rest := by
  induction lines with
  | nil => rfl
  | cons line lines ih =>
      have first : IsLine d line := h line (by simp)
      have others : ∀ line ∈ lines, IsLine d line := by
        intro line mem
        exact h line (by simp [mem])
      rw [List.flatten_cons, List.append_assoc, segments_append first, ih others,
        List.cons_append]

end Line

namespace Wire

theorem flatten_piecesFrom (size : Nat) (done : List Bytes) (bs : Bytes) :
    (piecesFrom size done bs).flatten = done.reverse.flatten ++ bs := by
  fun_induction piecesFrom size done bs with
  | case1 done => simp
  | case2 done b rest ih => simp [ih]

/-- Bytes that are to arrive in pieces are all of them, however they are cut. -/
theorem flatMap_bytes_pieces (size : Nat) (bs : Bytes) :
    ((pieces size bs).map Arrival.piece).flatMap Arrival.bytes = bs := by
  have whole : (pieces size bs).flatten = bs := flatten_piecesFrom _ [] bs
  rw [List.flatMap_map]
  exact List.flatMap_id'.trans whole

end Wire

namespace Channel

/-! ## What is seen of a run -/

def Entry.line? : Entry → Option Bytes
  | .settled (.line bs) .. => some bs
  | _ => none

def Step.fed : Step → Bytes
  | .change (.feed _ bs) => bs
  | _ => []

def Step.script : Step → List Arrival
  | .change (.feed size bs) => (Wire.pieces (min size Wire.pieceLimit) bs).map .piece
  | .change .feedClose => [.close]
  | .change (.feedFailure e) => [.failure e]
  | _ => []

/-- The delimiter that an operation in flight looks for, if it reads. -/
def Flight.sought? : Flight → Option UInt8
  | .reading d _ => some d
  | .writing .. => none

/-- The delimiter that a step looks for, if it polls a read. -/
def State.sought? (s : State) : Step → Option UInt8
  | .start (.read d) => some d
  | .poll => s.flight.bind Flight.sought?
  | _ => none

def State.delivers (s : State) : Step → Bytes
  | .change _ => []
  | a => s.channel.wire.delivered (step s a).1.channel.wire

def lines (s : State) (steps : List Step) : List Bytes :=
  (run s steps).2.filterMap Entry.line?

def delivered (s : State) : List Step → Bytes
  | [] => []
  | a :: as => s.delivers a ++ delivered (step s a).1 as

def fed (steps : List Step) : Bytes :=
  steps.flatMap Step.fed

/-- No delimiter was looked at that is still in the inbox, and what is in flight looks for it. -/
structure State.Clean (d : UInt8) (s : State) : Prop where
  seen : d ∉ s.channel.inbox.seen
  flight : ∀ d' wait, s.flight = some (.reading d' wait) → d' = d

/-- What a step does that polls no read: it may put something in the script, and nothing else
happens to the bytes; and no read is in flight that was not in flight before. -/
structure Still (s : State) (a : Step) : Prop where
  inbox : (step s a).1.channel.inbox = s.channel.inbox
  arrivals : (step s a).1.channel.wire.arrivals = s.channel.wire.arrivals ++ a.script
  line : (step s a).2.line? = none
  delivers : s.delivers a = []
  flight : ∀ d wait, (step s a).1.flight = some (.reading d wait) →
    s.flight = some (.reading d wait)

structure Frames (d : UInt8) (s : State) (a : Step) : Prop where
  bytes : (step s a).2.line?.getD [] ++ (step s a).1.channel.inbox.bytes =
    s.channel.inbox.bytes ++ s.delivers a
  due : s.channel.wire.due ++ a.fed = s.delivers a ++ (step s a).1.channel.wire.due
  clean : (step s a).1.Clean d
  line : ∀ line, (step s a).2.line? = some line → Line.IsLine d line

variable {d : UInt8} {s s₀ : State} {a : Step} {c : Channel}

/-! ## Every step -/

/-- A poll looks for the delimiter of the read in flight. -/
theorem State.sought?_poll_eq_some_iff :
    s.sought? .poll = some d ↔ ∃ wait, s.flight = some (.reading d wait) := by
  have bound : s.sought? .poll = s.flight.bind Flight.sought? := rfl
  rw [bound, Option.bind_eq_some_iff]
  constructor
  · rintro ⟨f, flying, sought⟩
    cases f with
    | reading d' wait =>
        cases sought
        exact ⟨wait, flying⟩
    | writing total rest => cases sought
  · rintro ⟨wait, flying⟩
    exact ⟨_, flying, rfl⟩

/-- How a read that was polled is shown. -/
theorem settleRead_spec (s : State) (d : UInt8) (c : Channel) (r : ReadPoll) :
    (entryOf (settleRead s d (c, r))).1.channel = c ∧
      (entryOf (settleRead s d (c, r))).2.line?.getD [] = r.given ∧
      (∀ line, (entryOf (settleRead s d (c, r))).2.line? = some line → r = .ready (.ok line)) ∧
      ∀ d' wait, (entryOf (settleRead s d (c, r))).1.flight = some (.reading d' wait) → d' = d := by
  cases r with
  | ready result =>
      cases result with
      | ok line =>
          refine ⟨rfl, rfl, ?_, ?_⟩
          · intro line' shown
            cases shown
            rfl
          · intro d' wait flight
            cases flight
      | error e =>
          refine ⟨rfl, rfl, ?_, ?_⟩
          · intro line shown
            cases shown
          · intro d' wait flight
            cases flight
  | pending wait =>
      refine ⟨rfl, rfl, ?_, ?_⟩
      · intro line shown
        cases shown
      · intro d' wait' flight
        cases flight
        rfl

/-- How a write that was polled is shown. -/
theorem settleWrite_spec (s : State) (total : Nat) (c : Channel) (r : WritePoll) :
    (entryOf (settleWrite s total (c, r))).1.channel = c ∧
      (entryOf (settleWrite s total (c, r))).2.line? = none ∧
      ∀ d wait, (entryOf (settleWrite s total (c, r))).1.flight ≠ some (.reading d wait) := by
  cases r with
  | ready result =>
      cases result with
      | ok u =>
          refine ⟨rfl, rfl, ?_⟩
          intro d wait flight
          cases flight
      | error e =>
          refine ⟨rfl, rfl, ?_⟩
          intro d wait flight
          cases flight
  | pending rest =>
      refine ⟨rfl, rfl, ?_⟩
      intro d wait flight
      cases flight

/-- What happens around the channel leaves the inbox and what is in flight. -/
theorem change_spec (s : State) (x : Change) :
    (change s x).1.channel.inbox = s.channel.inbox ∧ (change s x).1.flight = s.flight ∧
      (change s x).1.channel.wire.arrivals =
        s.channel.wire.arrivals ++ (Step.change x).script ∧
      ∀ line, (change s x).2 ≠ .line line := by
  cases x with
  | feed size bs => exact ⟨rfl, rfl, rfl, fun _ h => by cases h⟩
  | feedClose => exact ⟨rfl, rfl, rfl, fun _ h => by cases h⟩
  | feedFailure e => exact ⟨rfl, rfl, rfl, fun _ h => by cases h⟩
  | allow u => exact ⟨rfl, rfl, (List.append_nil _).symm, fun _ h => by cases h⟩
  | failFlush e => exact ⟨rfl, rfl, (List.append_nil _).symm, fun _ h => by cases h⟩
  | raise =>
      -- Whether there is a holder or not, only the latch may change.
      refine ⟨?_, ?_, ?_, ?_⟩ <;> cases held : s.latch.held <;> simp [change, held, Step.script]
  | release => exact ⟨rfl, rfl, (List.append_nil _).symm, fun _ h => by cases h⟩

theorem line?_entry {r : Answer} (h : ∀ line, r ≠ .line line) (s : State) :
    (s.entry r).line? = none := by
  cases r with
  | line bs => exact absurd rfl (h bs)
  | _ => rfl

/-- A step that takes nothing off the script, and nothing of the inbox. -/
theorem still_of_same (operates : s.delivers a =
      s.channel.wire.delivered (step s a).1.channel.wire) (unscripted : a.script = [])
    (arrivals : (step s a).1.channel.wire.arrivals = s.channel.wire.arrivals)
    (inbox : (step s a).1.channel.inbox = s.channel.inbox) (line : (step s a).2.line? = none)
    (flight : ∀ d wait, (step s a).1.flight = some (.reading d wait) →
      s.flight = some (.reading d wait)) : Still s a where
  inbox := inbox
  arrivals := by rw [arrivals, unscripted, List.append_nil]
  line := line
  delivers := by rw [operates, ← (Wire.Delivers.of_arrivals arrivals).eq_delivered]
  flight := flight

/-- A write that is polled. -/
theorem still_of_write {r : WritePoll} {total : Nat}
    (stepped : step s a = entryOf (settleWrite s₀ total (c, r)))
    (operates : s.delivers a = s.channel.wire.delivered (step s a).1.channel.wire)
    (unscripted : a.script = []) (arrivals : c.wire.arrivals = s.channel.wire.arrivals)
    (inbox : c.inbox = s.channel.inbox) : Still s a := by
  rcases settleWrite_spec s₀ total c r with ⟨channel, noLine, flight⟩
  rw [← channel, ← stepped] at arrivals inbox
  rw [← stepped] at noLine flight
  exact still_of_same operates unscripted arrivals inbox noLine
    fun d wait flying => absurd flying (flight d wait)

/-- Every step that polls no read does that. -/
theorem still_step (unsought : s.sought? a = none) : Still s a := by
  cases a with
  | change x =>
      rcases change_spec s x with ⟨inbox, flight, arrivals, noAnswer⟩
      refine ⟨inbox, arrivals, ?_, rfl, ?_⟩
      · simp only [step]
        split
        · rfl
        · exact line?_entry noAnswer _
      · intro d wait flying
        exact flight ▸ flying
  | start op =>
      cases op with
      | read d => cases unsought
      | write bs =>
          -- What a read has left in the inbox stays there, though a write gives the read up.
          exact still_of_write rfl rfl rfl (arrivals_writeFrom bs s.channel.wire) rfl
  | poll =>
      cases flying : s.flight with
      | none =>
          have stepped : step s .poll = (s, s.entry .idle) := by simp [step, flying]
          exact still_of_same rfl rfl (by rw [stepped]) (by rw [stepped]) (by rw [stepped]; rfl)
            (by rw [stepped]; exact fun _ _ same => same)
      | some f =>
          cases f with
          | reading d wait =>
              have sought : s.sought? .poll = some d :=
                State.sought?_poll_eq_some_iff.2 ⟨wait, flying⟩
              cases sought.symm.trans unsought
          | writing total rest =>
              have stepped : step s .poll =
                  entryOf (settleWrite s total (s.channel.pollWrite rest)) := by
                simp [step, flying, resume]
              exact still_of_write stepped rfl rfl (arrivals_writeFrom rest s.channel.wire) rfl
  | abandon =>
      cases flying : s.flight with
      | none =>
          have stepped : step s .abandon = (s, s.entry .idle) := by simp [step, flying]
          exact still_of_same rfl rfl (by rw [stepped]) (by rw [stepped]) (by rw [stepped]; rfl)
            (by rw [stepped]; exact fun _ _ same => same)
      | some f =>
          have stepped : step s .abandon =
              ({ s with flight := none }, State.entry { s with flight := none } .abandoned) := by
            simp [step, flying]
          refine still_of_same rfl rfl (by rw [stepped]) (by rw [stepped]) (by rw [stepped]; rfl) ?_
          rw [stepped]
          intro d wait flying
          cases flying

/-- A step that polls a read begins it or goes on with it. -/
theorem step_of_sought (sought : s.sought? a = some d) :
    ∃ s₀ polled, step s a = entryOf (settleRead s₀ d polled) ∧
      (polled = s.channel.pollRead s.watched d ∨
        ∃ wait, s.flight = some (.reading d wait) ∧
          polled = s.channel.resumeRead s.watched d wait) := by
  cases a with
  | change x => cases sought
  | start op =>
      cases op with
      | read d' =>
          cases sought
          exact ⟨{ s with flight := none }, _, rfl, .inl rfl⟩
      | write bs => cases sought
  | poll =>
      rcases State.sought?_poll_eq_some_iff.1 sought with ⟨wait, flying⟩
      have stepped : step s .poll =
          entryOf (settleRead s d (s.channel.resumeRead s.watched d wait)) := by
        simp [step, flying, resume]
      exact ⟨s, _, stepped, .inr ⟨wait, flying, rfl⟩⟩
  | abandon => cases sought

theorem delivers_of_sought (sought : s.sought? a = some d) :
    s.delivers a = s.channel.wire.delivered (step s a).1.channel.wire := by
  cases a with
  | change x => cases sought
  | _ => rfl

/-- A step that polls a read searches for what it looks for. -/
theorem searches_step (sought : s.sought? a = some d) :
    ∃ s₀ c r got, step s a = entryOf (settleRead s₀ d (c, r)) ∧ Searches d s.channel c r got ∧
      s.delivers a = got := by
  rcases step_of_sought sought with ⟨s₀, ⟨c, r⟩, stepped, polled⟩
  have searched : ∃ got, Searches d s.channel c r got := by
    rcases polled with begun | ⟨wait, -, resumed⟩
    · have searched := searches_pollRead s.watched d s.channel
      rwa [← begun] at searched
    · have searched := searches_resumeRead s.watched d wait s.channel
      rwa [← resumed] at searched
  rcases searched with ⟨got, searches⟩
  -- What was delivered is what is missing from the script behind the step.
  refine ⟨s₀, c, r, got, stepped, searches, ?_⟩
  rw [delivers_of_sought sought, stepped, (settleRead_spec s₀ d c r).1,
    ← searches.delivers.eq_delivered]

theorem script_of_sought (sought : s.sought? a = some d) : a.script = [] := by
  cases a with
  | change x => cases sought
  | _ => rfl

/-- The bytes that a step puts in the script are those that are to arrive. -/
theorem Step.fed_eq (a : Step) : a.fed = a.script.flatMap Arrival.bytes := by
  cases a with
  | change x =>
      cases x with
      | feed size bs => exact (Wire.flatMap_bytes_pieces _ bs).symm
      | _ => rfl
  | _ => rfl

/-- What a step looks for is the delimiter, as long as every read is for the delimiter. -/
theorem State.Clean.sought {d' : UInt8} (clean : s.Clean d)
    (only : ∀ d', a = .start (.read d') → d' = d) (sought : s.sought? a = some d') : d' = d := by
  cases a with
  | change x => cases sought
  | start op =>
      cases op with
      | read d'' =>
          cases sought
          exact only d' rfl
      | write bs => cases sought
  | poll =>
      rcases State.sought?_poll_eq_some_iff.1 sought with ⟨wait, flying⟩
      exact clean.flight d' wait flying
  | abandon => cases sought

/-- Every step does that, as long as every read is for the delimiter. -/
theorem frames_step (clean : s.Clean d) (only : ∀ d', a = .start (.read d') → d' = d) :
    Frames d s a := by
  cases sought : s.sought? a with
  | some d' =>
      obtain rfl := clean.sought only sought
      rcases searches_step sought with ⟨s₀, c, r, got, stepped, searches, delivers⟩
      rcases settleRead_spec s₀ d' c r with ⟨channel, given, line, flight⟩
      have reads := searches.reads clean.seen
      rw [← stepped] at channel given line flight
      refine ⟨?_, ?_, ⟨?_, flight⟩, ?_⟩
      · rw [channel, given, delivers]
        exact reads.bytes
      · rw [channel, delivers, Step.fed_eq, script_of_sought sought]
        exact (List.append_nil _).trans reads.delivers.due_eq
      · rw [channel]
        exact reads.clean
      · intro bs shown
        exact reads.line bs (line bs shown)
  | none =>
      -- A step that reads nothing leaves the inbox as it is.
      rcases still_step sought with ⟨inbox, arrivals, noLine, delivers, flight⟩
      refine ⟨?_, ?_, ⟨?_, ?_⟩, ?_⟩
      · rw [noLine, inbox, delivers]
        exact (List.append_nil _).symm
      · rw [delivers, Step.fed_eq, Wire.due, Wire.due, arrivals, List.flatMap_append]
        rfl
      · rw [inbox]
        exact clean.seen
      · intro d' wait flying
        exact clean.flight d' wait (flight d' wait flying)
      · rw [noLine]
        intro line shown
        cases shown

/-- Every step comes to the same when every search is made anew. -/
theorem stepAnew_eq (clean : s.Clean d) (only : ∀ d', a = .start (.read d') → d' = d) :
    stepAnew s a = step s a := by
  cases a with
  | change x => rfl
  | start op =>
      cases op with
      | read d' =>
          obtain rfl : d' = d := only d' rfl
          have same := pollAnew_eq s.watched clean.seen
          exact congrArg (fun r => entryOf (settleRead { s with flight := none } d' r)) same
      | write bs => rfl
  | poll =>
      cases flying : s.flight with
      | none => simp only [stepAnew, flying]
      | some f =>
          simp only [stepAnew, step, flying]
          cases f with
          | reading d' wait =>
              obtain rfl : d' = d := clean.flight d' wait flying
              have same := resumeAnew_eq s.watched wait clean.seen
              exact congrArg (fun r => entryOf (settleRead s d' r)) same
          | writing total rest => rfl
  | abandon => rfl

/-! ## Runs -/

variable {as : List Step}

theorem lines_cons (s : State) (a : Step) (as : List Step) :
    lines s (a :: as) = (step s a).2.line?.toList ++ lines (step s a).1 as := by
  simp only [lines, run, List.filterMap_cons]
  cases (step s a).2.line? <;> rfl

theorem flatten_lines_cons (s : State) (a : Step) (as : List Step) :
    (lines s (a :: as)).flatten =
      (step s a).2.line?.getD [] ++ (lines (step s a).1 as).flatten := by
  rw [lines_cons, List.flatten_append]
  cases (step s a).2.line? <;> simp

theorem run_cons (s : State) (a : Step) (as : List Step) :
    run s (a :: as) =
      ((run (step s a).1 as).1, (step s a).2 :: (run (step s a).1 as).2) := rfl

theorem run_append (s : State) (as bs : List Step) :
    (run s (as ++ bs)).1 = (run (run s as).1 bs).1 := by
  induction as generalizing s with
  | nil => rfl
  | cons a as ih => exact ih (step s a).1

theorem runAnew_cons (s : State) (a : Step) (as : List Step) :
    runAnew s (a :: as) =
      ((runAnew (stepAnew s a).1 as).1,
        (stepAnew s a).2 :: (runAnew (stepAnew s a).1 as).2) := rfl

structure RunFrames (d : UInt8) (s : State) (as : List Step) : Prop where
  bytes : (lines s as).flatten ++ (run s as).1.channel.inbox.bytes =
    s.channel.inbox.bytes ++ delivered s as
  due : s.channel.wire.due ++ fed as = delivered s as ++ (run s as).1.channel.wire.due
  clean : (run s as).1.Clean d
  isLine : ∀ line ∈ lines s as, Line.IsLine d line
  anew : runAnew s as = run s as

theorem RunFrames.nil (clean : s.Clean d) : RunFrames d s [] where
  bytes := by simp [lines, run, delivered]
  due := by simp [fed, delivered, run]
  clean := clean
  isLine := by simp [lines, run]
  anew := rfl

theorem RunFrames.cons (first : Frames d s a) (same : stepAnew s a = step s a)
    (rest : RunFrames d (step s a).1 as) : RunFrames d s (a :: as) where
  bytes := by
    rw [flatten_lines_cons, List.append_assoc, run_cons, rest.bytes, ← List.append_assoc,
      first.bytes, List.append_assoc]
    rfl
  due := by
    rw [run_cons, delivered, List.append_assoc, ← rest.due, ← List.append_assoc, ← first.due,
      List.append_assoc]
    rfl
  clean := rest.clean
  isLine line mem := by
    rw [lines_cons, List.mem_append, Option.mem_toList] at mem
    rcases mem with here | later
    · exact first.line line here
    · exact rest.isLine line later
  anew := by
    rw [run_cons, runAnew_cons, same, rest.anew]

/-- Every run does that, as long as every read is for the delimiter. -/
theorem runFrames_of_clean (clean : s.Clean d)
    (only : ∀ d', Step.start (.read d') ∈ as → d' = d) : RunFrames d s as := by
  -- By the steps, for every clean state at once: each step leaves another one.
  induction as generalizing s with
  | nil => exact .nil clean
  | cons a as ih =>
      have onlyHere : ∀ d', a = .start (.read d') → d' = d := by
        intro d' here
        exact only d' (by simp [here])
      have onlyLater : ∀ d', Step.start (.read d') ∈ as → d' = d := by
        intro d' mem
        exact only d' (List.mem_cons_of_mem a mem)
      have first := frames_step clean onlyHere
      exact .cons first (stepAnew_eq clean onlyHere) (ih first.clean onlyLater)

theorem clean_start (d : UInt8) (watches : Bool) : (State.start watches).Clean d where
  seen := by simp [State.start, ofWire, Inbox.empty]
  flight d' wait flying := by cases flying

/-- In every run of a channel whose reads are all for the delimiter `d`: the lines that were given
out, with the inbox behind them, are what the stream delivered, and what was delivered, with what
is still due, is what was put in the script; the lines are the first segments of what was delivered,
each with `d` as its last byte and nowhere else; the scan position lies within the inbox, with no
`d` before it, so that a search from there in a flat buffer does not fail and makes the same offer;
and the run shows the same when every search is made anew. -/
theorem framing_refines_splitting {d : UInt8} {steps : List Step} (watches : Bool)
    (only : ∀ d', Step.start (.read d') ∈ steps → d' = d) :
    let s₀ := State.start watches
    let inbox := (run s₀ steps).1.channel.inbox
    ((lines s₀ steps).flatten ++ inbox.bytes = delivered s₀ steps ∧
      delivered s₀ steps ++ (run s₀ steps).1.channel.wire.due = fed steps) ∧
    (Line.segments d (delivered s₀ steps) = lines s₀ steps ++ Line.segments d inbox.bytes ∧
      ∀ line ∈ lines s₀ steps, ∃ body, line = body ++ [d] ∧ d ∉ body) ∧
    (inbox.scanned ≤ inbox.bytes.length ∧ d ∉ inbox.bytes.take inbox.scanned ∧
      inbox.window.offer? d = some ((inbox.offer d).1.window, (inbox.offer d).2)) ∧
    runAnew s₀ steps = run s₀ steps := by
  intro s₀ inbox
  have frames := runFrames_of_clean (clean_start d watches) only
  have bytes : (lines s₀ steps).flatten ++ inbox.bytes = delivered s₀ steps := frames.bytes
  refine ⟨⟨bytes, frames.due.symm⟩, ⟨?_, frames.isLine⟩,
    ⟨inbox.scanned_le, ?_, Inbox.offer?_window d inbox⟩, frames.anew⟩
  · rw [← bytes]
    exact Line.segments_flatten_append frames.isLine
  · rw [Inbox.take_scanned, List.mem_reverse]
    exact frames.clean.seen

/-- Two lines in pieces, a read given up between them, and a write. -/
def choppyRun : List Step :=
  [.change (.feed 2 [97, 98]), .start (.read 10), .abandon, .change (.feed 3 [10, 99, 10, 100]),
    .start (.write [1]), .start (.read 10), .start (.read 10), .start (.read 10)]

theorem framing_of_choppyRun :
    (∀ d', Step.start (.read d') ∈ choppyRun → d' = 10) ∧
      (lines (.start true) choppyRun).flatten ++
        (run (.start true) choppyRun).1.channel.inbox.bytes =
          delivered (.start true) choppyRun := by
  have only : ∀ d', Step.start (.read d') ∈ choppyRun → d' = 10 := by
    simp [choppyRun]
  exact ⟨only, (framing_refines_splitting true only).1.1⟩

end Channel
end LineExchange
