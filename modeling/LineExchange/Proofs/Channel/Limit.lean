import LineExchange.Proofs.Channel.Room

/-!
# Limit — how long a line may get

The piece that carries an inbox past its limit may still end the line, so there is no one length up
to which lines are given out: it depends on where the last piece starts.  This file defines:

* `Channel.Metered` — the arrivals that were taken off the script in a run;
* `Channel.State.Stuffed` — a state from which no read gets any further;
* `Channel.Smooth` — runs that read for one delimiter, while nothing fails;
* `Channel.EndsIn` — in which piece a line ends;
* `Channel.ComesTo` — what a poll of a read comes to.

An arrival is taken only while there is room for more, so all that were taken start less than
`Inbox.capacity` bytes behind the lines that were given out (`metered_of_run`).  A line is given out
exactly when the piece in which it ends starts there (`limit_is_exact`).
-/

namespace LineExchange

namespace Wire

/-- Pieces are cut no longer than they should be, and none is empty. -/
theorem mem_piecesFrom {size : Nat} {done : List Bytes} {bs piece : Bytes}
    (mem : piece ∈ piecesFrom size done bs) :
    piece ∈ done ∨ piece ≠ [] ∧ piece.length ≤ size + 1 := by
  fun_induction piecesFrom size done bs with
  | case1 done => exact .inl (List.mem_reverse.1 mem)
  | case2 done b rest ih =>
      rcases ih mem with old | fresh
      · rcases List.mem_cons.1 old with rfl | older
        · have le : (rest.take size).length ≤ size := List.length_take_le _ _
          exact .inr ⟨List.cons_ne_nil _ _, Nat.succ_le_succ le⟩
        · exact .inl older
      · exact .inr fresh

/-- Bytes that are no more than a piece may have are one piece. -/
theorem pieces_of_length_le {size : Nat} {bs : Bytes} (hne : bs ≠ []) (le : bs.length ≤ size) :
    pieces size bs = [bs] := by
  cases bs with
  | nil => exact absurd rfl hne
  | cons b rest =>
      have short : rest.length ≤ size - 1 := by
        simp only [List.length_cons] at le
        omega
      simp [pieces, piecesFrom, List.take_of_length_le short, List.drop_of_length_le short]

end Wire

namespace Channel

variable {l : Latch} {d : UInt8} {r : ReadPoll} {taken : List Arrival} {a : Arrival}

/-! ## Steps -/

def ReadPoll.answer? : ReadPoll → Option Answer
  | .ready (.ok line) => some (.line line)
  | .ready (.error e) => some (.failed e)
  | .pending _ => none

def Entry.answer? : Entry → Option Answer
  | .settled r .. => some r
  | .pending | .inFlight _ => none

/-- Where a read that was polled is shown, and what is in flight then. -/
theorem answer_settleRead (s : State) (d : UInt8) (c : Channel) (r : ReadPoll) :
    (entryOf (settleRead s d (c, r))).2.answer? = r.answer? ∧
      ∀ d' wait, (entryOf (settleRead s d (c, r))).1.flight = some (.reading d' wait) →
        ∃ wait, r = .pending wait := by
  cases r with
  | ready result =>
      cases result with
      | ok line => exact ⟨rfl, fun d' wait flying => by cases flying⟩
      | error e => exact ⟨rfl, fun d' wait flying => by cases flying⟩
  | pending wait => exact ⟨rfl, fun _ _ _ => ⟨wait, rfl⟩⟩

def script (steps : List Step) : List Arrival :=
  steps.flatMap Step.script

def State.AsksInFlight (s : State) : Prop :=
  ∀ d wait, s.flight = some (.reading d wait) → s.channel.inbox.Asks

/-- The arrivals `past` were taken off the script in a run that has given out the bytes `given`,
each while there was room for more behind these. -/
structure Metered (given : Bytes) (script past : List Arrival) (s : State) : Prop where
  script : script = past ++ s.channel.wire.arrivals
  bytes : past.flatMap Arrival.bytes = given ++ s.channel.inbox.bytes
  early : Arrival.StartBelow (given.length + Inbox.capacity) 0 past
  asks : s.AsksInFlight

variable {s : State} {b : Step} {given : Bytes} {scripted past : List Arrival}

/-- A step that polls a read draws what it searches. -/
theorem draws_step (asks : s.AsksInFlight) (sought : s.sought? b = some d) :
    ∃ s₀ c r taken, step s b = entryOf (settleRead s₀ d (c, r)) ∧
      Draws s.watched s.channel c r taken ∧
      Searches d s.channel c r (taken.flatMap Arrival.bytes) := by
  rcases step_of_sought sought with ⟨s₀, ⟨c, r⟩, stepped, polled⟩
  have both : (∃ taken, Draws s.watched s.channel c r taken) ∧
      ∃ got, Searches d s.channel c r got := by
    rcases polled with begun | ⟨wait, flying, resumed⟩
    · have drawn := draws_pollRead s.watched d s.channel
      have searched := searches_pollRead s.watched d s.channel
      rw [← begun] at drawn searched
      exact ⟨drawn, searched⟩
    · have drawn := draws_resumeRead s.watched d wait s.channel (asks d wait flying)
      have searched := searches_resumeRead s.watched d wait s.channel
      rw [← resumed] at drawn searched
      exact ⟨drawn, searched⟩
  rcases both with ⟨⟨taken, draws⟩, got, searches⟩
  refine ⟨s₀, c, r, taken, stepped, draws, ?_⟩
  -- There is only one way to take the arrivals of `c` off the script.
  rcases searches.delivers with ⟨taken', arrivals, rfl⟩
  rw [draws.arrivals] at arrivals
  rwa [List.append_cancel_right arrivals]

/-- Behind a poll all arrivals that were taken start with room for more, before the step. -/
theorem Metered.early_append {c : Channel} (metered : Metered given scripted past s)
    (draws : Draws l s.channel c r taken) :
    Arrival.StartBelow (given.length + Inbox.capacity) 0 (past ++ taken) := by
  refine Arrival.startBelow_append.2 ⟨metered.early, ?_⟩
  rw [metered.bytes, List.length_append, Nat.zero_add]
  exact draws.early.shift given.length

theorem Metered.bytes_append {c : Channel} {d : UInt8} (metered : Metered given scripted past s)
    (searches : Searches d s.channel c r (taken.flatMap Arrival.bytes)) :
    (past ++ taken).flatMap Arrival.bytes = given ++ (r.given ++ c.inbox.bytes) := by
  calc
    (past ++ taken).flatMap Arrival.bytes
        = past.flatMap Arrival.bytes ++ taken.flatMap Arrival.bytes := List.flatMap_append
    _ = given ++ (s.channel.inbox.bytes ++ taken.flatMap Arrival.bytes) := by
          rw [metered.bytes, List.append_assoc]
    _ = given ++ (r.given ++ c.inbox.bytes) := by rw [searches.bytes]

/-- A read in flight goes on asking for more. -/
theorem State.AsksInFlight.step (asks : s.AsksInFlight) (b : Step) :
    (Channel.step s b).1.AsksInFlight := by
  intro d' wait flying
  cases sought : s.sought? b with
  | some d =>
      rcases draws_step asks sought with ⟨s₀, c, r, taken, stepped, draws, -⟩
      rw [stepped] at flying ⊢
      rcases (answer_settleRead s₀ d c r).2 d' wait flying with ⟨wait', pending⟩
      rw [(settleRead_spec s₀ d c r).1]
      exact (draws.waits wait' pending).1
  | none =>
      have still := still_step sought
      rw [still.inbox]
      exact asks d' wait (still.flight d' wait flying)

/-- Every step leaves it so. -/
theorem Metered.step (metered : Metered given scripted past s) (b : Step) :
    ∃ past', Metered (given ++ (Channel.step s b).2.line?.getD []) (scripted ++ b.script) past'
      (Channel.step s b).1 := by
  cases sought : s.sought? b with
  | some d =>
      rcases draws_step metered.asks sought with ⟨s₀, c, r, taken, stepped, draws, searches⟩
      rcases settleRead_spec s₀ d c r with ⟨channel, line, -⟩
      rw [← stepped] at channel line
      refine ⟨past ++ taken, ?_, ?_, ?_, metered.asks.step b⟩
      · rw [script_of_sought sought, List.append_nil, metered.script, draws.arrivals, channel,
          List.append_assoc]
      · rw [line, channel, List.append_assoc]
        exact metered.bytes_append searches
      · -- A line that is given out only moves the limit on.
        refine (metered.early_append draws).mono ?_
        rw [List.length_append]
        omega
  | none =>
      rcases still_step sought with ⟨inbox, arrivals, noLine, -, -⟩
      refine ⟨past, ?_, ?_, ?_, metered.asks.step b⟩
      · rw [arrivals, metered.script, List.append_assoc]
      · rw [noLine, inbox, metered.bytes]
        simp
      · rw [noLine]
        simpa using metered.early

/-- Every run leaves it so. -/
theorem Metered.run (metered : Metered given scripted past s) (steps : List Step) :
    ∃ past', Metered (given ++ (lines s steps).flatten) (scripted ++ Channel.script steps) past'
      (Channel.run s steps).1 := by
  induction steps generalizing given scripted past s with
  | nil =>
      refine ⟨past, ?_⟩
      simpa [lines, Channel.run, Channel.script] using metered
  | cons b steps ih =>
      rcases metered.step b with ⟨past', metered'⟩
      rcases ih metered' with ⟨past'', metered''⟩
      refine ⟨past'', ?_⟩
      rw [flatten_lines_cons, ← List.append_assoc]
      simpa [Channel.script, run_cons] using metered''

theorem metered_of_run (watches : Bool) (steps : List Step) :
    ∃ past, Metered (lines (.start watches) steps).flatten (script steps) past
      (run (.start watches) steps).1 := by
  have fresh : Metered [] [] [] (.start watches) :=
    ⟨rfl, rfl, trivial, fun d wait flying => by cases flying⟩
  exact fresh.run steps

/-! ## Full inboxes -/

/-- There is no room in the inbox and no line, and no read is in flight. -/
structure State.Stuffed (s : State) : Prop where
  inbox : s.channel.inbox.IsFull
  flight : ∀ d wait, s.flight ≠ some (.reading d wait)

/-- A read that ended for want of room leaves the state so. -/
theorem stuffed_of_full (asks : s.AsksInFlight) (sought : s.sought? b = some d)
    (full : (step s b).2.answer? = some (.failed .bufferFull)) : (step s b).1.Stuffed := by
  rcases draws_step asks sought with ⟨s₀, c, r, taken, stepped, draws, -⟩
  rcases answer_settleRead s₀ d c r with ⟨answer, flight⟩
  have channel := (settleRead_spec s₀ d c r).1
  rw [← stepped] at answer flight channel
  rw [answer] at full
  have isFull : r = .ready (.error .bufferFull) := by
    cases r with
    | ready result =>
        cases result with
        | ok line => cases full
        | error e =>
            cases full
            rfl
    | pending wait => cases full
  refine ⟨by rw [channel]; exact draws.full isFull, ?_⟩
  intro d' wait flying
  rcases flight d' wait flying with ⟨wait', pending⟩
  cases isFull.symm.trans pending

/-- Every read ends at once for want of room, whatever it looks for, and leaves the stream alone. -/
theorem State.Stuffed.read (stuffed : s.Stuffed) (sought : s.sought? b = some d) :
    (step s b).2.answer? = some (.failed .bufferFull) ∧
      (step s b).1.channel.wire = s.channel.wire ∧ (step s b).1.Stuffed := by
  rcases step_of_sought sought with ⟨s₀, polled, stepped, begun | ⟨wait, flying, -⟩⟩
  · have ended : polled = ({ s.channel with inbox := s.channel.inbox.look },
        .ready (.error .bufferFull)) := by
      rw [begun]
      simp [pollRead, offer, stuffed.inbox.offer_eq d]
    rw [stepped, ended]
    exact ⟨rfl, rfl, stuffed.inbox.look, fun d' wait flying => by cases flying⟩
  · exact absurd flying (stuffed.flight d wait)

theorem State.Stuffed.step (stuffed : s.Stuffed) (b : Step) : (step s b).1.Stuffed := by
  cases sought : s.sought? b with
  | some d => exact (stuffed.read sought).2.2
  | none =>
      have still := still_step sought
      exact ⟨by rw [still.inbox]; exact stuffed.inbox,
        fun d wait flying => stuffed.flight d wait (still.flight d wait flying)⟩

/-- It stays so for ever. -/
theorem State.Stuffed.run (stuffed : s.Stuffed) (steps : List Step) :
    (run s steps).1.Stuffed := by
  induction steps generalizing s with
  | nil => exact stuffed
  | cons b steps ih => exact ih (stuffed.step b)

/-! ## Runs in which nothing fails -/

/-- All reads are for `d`, the stream neither ends nor fails, and nothing is cancelled. -/
structure Smooth (d : UInt8) (steps : List Step) : Prop where
  only : ∀ d', .start (.read d') ∈ steps → d' = d
  endless : .change .feedClose ∉ steps
  sound : ∀ e, .change (.feedFailure e) ∉ steps
  uncancelled : .change .raise ∉ steps

/-- What is put in the script are pieces that are not too long, or it is no piece. -/
theorem Step.mem_script (mem : a ∈ b.script) :
    a.IsPiece ∧ a.bytes.length ≤ Wire.pieceLimit ∨
      a.bytes = [] ∧ (b = .change .feedClose ∨ ∃ e, b = .change (.feedFailure e)) := by
  cases b with
  | change x =>
      cases x with
      | feed size bs =>
          rcases List.mem_map.1 mem with ⟨piece, cut, rfl⟩
          rcases Wire.mem_piecesFrom cut with hnone | ⟨hne, le⟩
          · cases hnone
          · rcases List.exists_cons_of_ne_nil hne with ⟨first, rest, rfl⟩
            have limit : min size Wire.pieceLimit - 1 + 1 ≤ Wire.pieceLimit := by
              simp only [Wire.pieceLimit]
              omega
            exact .inl ⟨⟨first, rest, rfl⟩, Nat.le_trans le limit⟩
      | feedClose =>
          rw [List.mem_singleton.1 mem]
          exact .inr ⟨rfl, .inl rfl⟩
      | feedFailure e =>
          rw [List.mem_singleton.1 mem]
          exact .inr ⟨rfl, .inr ⟨e, rfl⟩⟩
      | _ => cases mem
  | _ => cases mem

/-- Whatever is put in the script is no longer than a piece may be. -/
theorem length_bytes_le {steps : List Step} (mem : a ∈ script steps) :
    a.bytes.length ≤ Wire.pieceLimit := by
  rcases List.mem_flatMap.1 mem with ⟨b, -, here⟩
  rcases Step.mem_script here with ⟨-, le⟩ | ⟨hnone, -⟩
  · exact le
  · rw [hnone]
    exact Nat.zero_le _

theorem Smooth.isPiece {steps : List Step} (smooth : Smooth d steps) (mem : a ∈ script steps) :
    a.IsPiece := by
  rcases List.mem_flatMap.1 mem with ⟨b, step, here⟩
  rcases Step.mem_script here with ⟨isPiece, -⟩ | ⟨-, rfl | ⟨e, rfl⟩⟩
  · exact isPiece
  · exact absurd step smooth.endless
  · exact absurd step (smooth.sound e)

theorem around_settleRead (s : State) (d : UInt8) (polled : Channel × ReadPoll) :
    (entryOf (settleRead s d polled)).1.latch = s.latch ∧
      (entryOf (settleRead s d polled)).1.watches = s.watches := by
  rcases polled with ⟨c, (e | line) | wait⟩ <;> exact ⟨rfl, rfl⟩

theorem around_settleWrite (s : State) (total : Nat) (polled : Channel × WritePoll) :
    (entryOf (settleWrite s total polled)).1.latch = s.latch ∧
      (entryOf (settleWrite s total polled)).1.watches = s.watches := by
  rcases polled with ⟨c, (e | u) | rest⟩ <;> exact ⟨rfl, rfl⟩

/-- Operations leave the latch as it is, and so whether the channel watches it. -/
theorem around_step (operates : ∀ x, b ≠ .change x) :
    (step s b).1.latch = s.latch ∧ (step s b).1.watches = s.watches := by
  cases b with
  | change x => exact absurd rfl (operates x)
  | start op =>
      cases op with
      | read d => exact around_settleRead { s with flight := none } d _
      | write bs => exact around_settleWrite { s with flight := none } bs.length _
  | poll =>
      cases flying : s.flight with
      | none => simp [step, flying]
      | some f =>
          simp only [step, flying]
          cases f with
          | reading d wait => exact around_settleRead s d _
          | writing total rest => exact around_settleWrite s total _
  | abandon => cases flying : s.flight <;> simp [step, flying]

/-- Nothing but its holder does anything to a latch. -/
theorem latch_step (noRaise : b ≠ .change .raise) (noRelease : b ≠ .change .release) :
    (step s b).1.latch = s.latch := by
  by_cases changes : ∃ x, b = .change x
  · rcases changes with ⟨x, rfl⟩
    cases x with
    | raise => exact absurd rfl noRaise
    | release => exact absurd rfl noRelease
    | _ => rfl
  · exact (around_step fun x here => changes ⟨x, here⟩).1

/-- Letting go of a latch does not raise it. -/
theorem raised_step (other : b ≠ .change .raise) :
    (step s b).1.latch.raised = s.latch.raised := by
  by_cases release : b = .change .release
  · subst release
    rfl
  · rw [latch_step other release]

theorem raised_run {steps : List Step} (uncancelled : .change .raise ∉ steps) :
    (run s steps).1.latch.raised = s.latch.raised := by
  induction steps generalizing s with
  | nil => rfl
  | cons b steps ih =>
      rw [List.mem_cons, not_or] at uncancelled
      rw [run_cons, ih uncancelled.2, raised_step (Ne.symm uncancelled.1)]

/-- The channel finds no raised latch. -/
theorem Smooth.raised {steps : List Step} (smooth : Smooth d steps) (watches : Bool) :
    (run (.start watches) steps).1.watched.raised = false := by
  have fresh : (run (.start watches) steps).1.latch.raised = false :=
    raised_run smooth.uncancelled
  unfold State.watched
  split
  · exact fresh
  · rfl

/-- The line that starts at the offset `o` of what is scripted, and the offset `q` of the piece in
which it ends. -/
def EndsIn (d : UInt8) (scripted : List Arrival) (o : Nat) (line : Bytes) (q : Nat) : Prop :=
  ∃ before piece later rest, scripted = before ++ .piece piece :: later ∧
    q = (before.flatMap Arrival.bytes).length ∧ Line.IsLine d line ∧
    (scripted.flatMap Arrival.bytes).drop o = line ++ rest ∧
    q < o + line.length ∧ o + line.length ≤ q + piece.length

theorem fed_eq (steps : List Step) : fed steps = (script steps).flatMap Arrival.bytes := by
  rw [script, List.flatMap_assoc]
  exact congrArg (List.flatMap · steps) (funext Step.fed_eq)

/-- What a poll of a read comes to when neither the latch nor an arrival makes it fail, once the
bytes `given` were given out.  Of the arrivals some were taken, each while there was room for
more. -/
inductive ComesTo (d : UInt8) (given : Bytes) (scripted : List Arrival) : Option Answer → Prop
  | line {past left : List Arrival} {line kept : Bytes} (split : scripted = past ++ left)
      (bytes : past.flatMap Arrival.bytes = given ++ (line ++ kept))
      (early : Arrival.StartBelow (given.length + Inbox.capacity) 0 past)
      (isLine : Line.IsLine d line) : ComesTo d given scripted (some (.line line))
  | full {past left : List Arrival} {kept : Bytes} (split : scripted = past ++ left)
      (bytes : past.flatMap Arrival.bytes = given ++ kept) (free : d ∉ kept)
      (full : Inbox.capacity ≤ kept.length) :
      ComesTo d given scripted (some (.failed .bufferFull))
  | waits {kept : Bytes} (bytes : scripted.flatMap Arrival.bytes = given ++ kept)
      (free : d ∉ kept) (room : kept.length < Inbox.capacity) : ComesTo d given scripted none

/-- Every step that polls a read comes to that. -/
theorem comesTo_step (metered : Metered given scripted past s) (clean : s.Clean d)
    (unraised : s.watched.raised = false) (pieces : ∀ a ∈ scripted, a.IsPiece)
    (sought : s.sought? b = some d) : ComesTo d given scripted (step s b).2.answer? := by
  rcases draws_step metered.asks sought with ⟨s₀, c, r, taken, stepped, draws, searches⟩
  have reads := searches.reads clean.seen
  have split : scripted = (past ++ taken) ++ c.wire.arrivals := by
    rw [metered.script, draws.arrivals, List.append_assoc]
  have bytes := metered.bytes_append searches
  have early := metered.early_append draws
  rw [stepped, (answer_settleRead s₀ d c r).1]
  cases r with
  | ready result =>
      cases result with
      | ok line => exact .line split bytes early (reads.line line rfl)
      | error e =>
          -- It fails for want of room: the latch is not raised, and all arrivals are pieces.
          rcases draws.fails e rfl with rfl | raised | ⟨a, mem, pieceless⟩
          · rcases draws.full rfl with ⟨looked, full⟩
            exact .full split bytes (Inbox.not_mem_bytes_of_looked reads.clean looked) full
          · cases unraised.symm.trans raised
          · have scripted : a ∈ scripted := by simp [split, mem]
            exact absurd (pieces a scripted) pieceless
  | pending wait =>
      rcases draws.waits wait rfl with ⟨⟨looked, room⟩, nothing⟩
      rw [nothing, List.append_nil] at split
      rw [← split] at bytes
      exact .waits bytes (Inbox.not_mem_bytes_of_looked reads.clean looked) room

variable {line : Bytes} {q : Nat} {r : Option Answer}

/-- What stands in the script behind the bytes that were given out. -/
theorem drop_flatMap_bytes {left : List Arrival} {kept : Bytes} (split : scripted = past ++ left)
    (bytes : past.flatMap Arrival.bytes = given ++ kept) :
    (scripted.flatMap Arrival.bytes).drop given.length = kept ++ left.flatMap Arrival.bytes := by
  rw [split, List.flatMap_append, bytes, List.append_assoc, List.drop_left]

/-- The line before a poll is given out exactly when the piece in which it ends starts with room for
more. -/
theorem ComesTo.eq_of_endsIn (comes : ComesTo d given scripted r)
    (ends : EndsIn d scripted given.length line q) :
    r = some (if q < given.length + Inbox.capacity then .line line else .failed .bufferFull) := by
  rcases ends with ⟨before, piece, later, rest, split', rfl, isLine, behind, starts, stops⟩
  cases comes with
  | @line past left line' kept split bytes early isLine' =>
      have parts : line' ++ (kept ++ left.flatMap Arrival.bytes) = line ++ rest := by
        rw [← behind, drop_flatMap_bytes split bytes, List.append_assoc]
      obtain rfl := isLine.eq_of_append isLine' parts
      have length := congrArg List.length bytes
      simp only [List.length_append] at length
      -- The piece in which the line ends was taken, so it starts as all do that were taken.
      rcases Arrival.exists_of_length_lt (split.symm.trans split') (by omega) with ⟨more, rfl⟩
      have below := (Arrival.startBelow_append.1 early).2.1
      rw [if_pos (by omega)]
  | @full past left kept split bytes free full =>
      have parts : kept ++ left.flatMap Arrival.bytes = line ++ rest := by
        rw [← behind, drop_flatMap_bytes split bytes]
      have short := isLine.length_lt_of_append free parts
      have length := congrArg List.length bytes
      rw [List.length_append] at length
      rw [if_neg]
      intro below
      -- Else the piece was taken, and the end of the line with it.
      rcases Arrival.exists_of_length_lt (split.symm.trans split') (by omega) with ⟨more, rfl⟩
      rw [List.flatMap_append, List.length_append, List.flatMap_cons, List.length_append] at length
      simp only [Arrival.bytes] at length
      omega
  | @waits kept bytes free room =>
      -- All of the script was taken, but the end of the line was not found in it.
      have parts : kept ++ [] = line ++ rest := by
        rw [← behind, bytes, List.drop_left, List.append_nil]
      have short := isLine.length_lt_of_append free parts
      have length := congrArg List.length parts
      simp only [List.length_append, List.length_nil] at length
      omega

/-- While its end has not come, a read waits exactly as long as there is room for more. -/
theorem ComesTo.eq_of_free (comes : ComesTo d given scripted r)
    (unended : d ∉ (scripted.flatMap Arrival.bytes).drop given.length) :
    r = if (scripted.flatMap Arrival.bytes).length < given.length + Inbox.capacity then none
      else some (.failed .bufferFull) := by
  cases comes with
  | @line past left line kept split bytes early isLine =>
      rcases isLine with ⟨body, rfl, -⟩
      rw [drop_flatMap_bytes split bytes] at unended
      simp at unended
  | @full past left kept split bytes free full =>
      rw [if_neg]
      rw [split, List.flatMap_append, bytes]
      simp only [List.length_append]
      omega
  | @waits kept bytes free room =>
      rw [if_pos]
      rw [bytes, List.length_append]
      omega

/-- A line that has its limit or less ends in a piece that starts early enough, and one that is
longer by a piece does not. -/
theorem EndsIn.bounds {o : Nat} (ends : EndsIn d scripted o line q)
    (small : ∀ a ∈ scripted, a.bytes.length ≤ Wire.pieceLimit) :
    (line.length ≤ Inbox.capacity → q < o + Inbox.capacity) ∧
      (Inbox.capacity + Wire.pieceLimit ≤ line.length → o + Inbox.capacity ≤ q) := by
  rcases ends with ⟨before, piece, later, rest, rfl, -, -, -, starts, stops⟩
  have le : piece.length ≤ Wire.pieceLimit := small (.piece piece) (by simp)
  constructor
  · intro short
    omega
  · intro long
    omega

/-- The bytes that were taken off the script go no further than one piece beyond the limit. -/
theorem length_lt_of_early {kept : Bytes}
    (small : ∀ a ∈ scripted, a.bytes.length ≤ Wire.pieceLimit) (taken : ∀ a ∈ past, a ∈ scripted)
    (early : Arrival.StartBelow (given.length + Inbox.capacity) 0 past)
    (bytes : past.flatMap Arrival.bytes = given ++ kept) :
    kept.length < Inbox.capacity + Wire.pieceLimit := by
  have start : 0 < given.length + Inbox.capacity + Wire.pieceLimit := by
    simp only [Inbox.capacity]
    omega
  have below := early.length_lt start fun a mem => small a (taken a mem)
  rw [bytes, List.length_append] at below
  omega

theorem Metered.length_lt (metered : Metered given scripted past s)
    (small : ∀ a ∈ scripted, a.bytes.length ≤ Wire.pieceLimit) :
    s.channel.inbox.bytes.length < Inbox.capacity + Wire.pieceLimit := by
  refine length_lt_of_early small ?_ metered.early metered.bytes
  intro a mem
  simp [metered.script, mem]

/-- With a line there go no more bytes through the inbox, before the line is given out. -/
theorem Metered.length_lt_step (metered : Metered given scripted past s)
    (small : ∀ a ∈ scripted, a.bytes.length ≤ Wire.pieceLimit) (b : Step) :
    ((Channel.step s b).2.line?.getD [] ++ (Channel.step s b).1.channel.inbox.bytes).length <
      Inbox.capacity + Wire.pieceLimit := by
  cases sought : s.sought? b with
  | some d =>
      rcases draws_step metered.asks sought with ⟨s₀, c, r, taken, stepped, draws, searches⟩
      rcases settleRead_spec s₀ d c r with ⟨channel, line, -⟩
      rw [stepped, channel, line]
      refine length_lt_of_early small ?_ (metered.early_append draws)
        (metered.bytes_append searches)
      intro a mem
      rw [metered.script, draws.arrivals, ← List.append_assoc]
      exact List.mem_append_left _ mem
  | none =>
      rcases still_step sought with ⟨inbox, -, noLine, -, -⟩
      rw [noLine, inbox]
      exact metered.length_lt small

/-- In every run of a channel, behind the `o` bytes of the lines that were given out.  First, if all
reads are for one delimiter and nothing fails: a read whose line ends in a piece that starts at the
offset `q` gives the line out exactly when `q` is less than `Inbox.capacity` bytes behind `o`, and
else ends for want of room; so every line of at most `Inbox.capacity` bytes is given out, and none
that is longer by `Wire.pieceLimit` bytes; and while the end of the line has not come, the read
waits exactly as long as fewer than `Inbox.capacity` bytes have come behind `o`.  Second, if a read
ends for want of room, whatever it looked for, then every later read does, and takes nothing off
the stream.  Third, the inbox never has `Wire.pieceLimit` bytes more than `Inbox.capacity`, not even
together with a line before it is given out. -/
theorem limit_is_exact (watches : Bool) (steps : List Step) :
    let s := (run (.start watches) steps).1
    let o := (lines (.start watches) steps).flatten.length
    (∀ d a, Smooth d steps → s.sought? a = some d →
      (∀ line q, EndsIn d (script steps) o line q →
        (step s a).2.answer? =
            some (if q < o + Inbox.capacity then .line line else .failed .bufferFull) ∧
          (line.length ≤ Inbox.capacity → q < o + Inbox.capacity) ∧
          (Inbox.capacity + Wire.pieceLimit ≤ line.length → o + Inbox.capacity ≤ q)) ∧
      (d ∉ (fed steps).drop o →
        (step s a).2.answer? =
          if (fed steps).length < o + Inbox.capacity then none
          else some (.failed .bufferFull))) ∧
    (∀ d a, s.sought? a = some d → (step s a).2.answer? = some (.failed .bufferFull) →
      ∀ more d' b, let t := (run (step s a).1 more).1
        t.sought? b = some d' →
          (step t b).2.answer? = some (.failed .bufferFull) ∧
            (step t b).1.channel.wire = t.channel.wire) ∧
    s.channel.inbox.bytes.length < Inbox.capacity + Wire.pieceLimit ∧
      ∀ a, ((step s a).2.line?.getD [] ++ (step s a).1.channel.inbox.bytes).length <
        Inbox.capacity + Wire.pieceLimit := by
  intro s o
  -- How much was taken is known in every run, whatever its reads looked for.
  rcases metered_of_run watches steps with ⟨past, metered⟩
  have small : ∀ a ∈ script steps, a.bytes.length ≤ Wire.pieceLimit := fun _ => length_bytes_le
  refine ⟨?_, ?_, metered.length_lt small, metered.length_lt_step small⟩
  · -- Only here does it matter what the reads look for, and that nothing fails.
    intro d a smooth sought
    have clean := (runFrames_of_clean (clean_start d watches) smooth.only).clean
    have comes := comesTo_step metered clean (smooth.raised watches) (fun _ => smooth.isPiece) sought
    refine ⟨?_, ?_⟩
    · intro line q ends
      exact ⟨comes.eq_of_endsIn ends, ends.bounds small⟩
    · intro unended
      rw [fed_eq] at unended ⊢
      exact comes.eq_of_free unended
  · intro d a sought full more d' b t sought'
    have stuffed := (stuffed_of_full metered.asks sought full).run more
    rcases stuffed.read sought' with ⟨answer, wire, -⟩
    exact ⟨answer, wire⟩

/-- So many letters, and then a piece of `Wire.pieceLimit` bytes that ends a line. -/
def lettersRun (n : Nat) : List Step :=
  [.change (.feed Wire.pieceLimit (List.replicate n 97)),
    .change (.feed Wire.pieceLimit (List.replicate (Wire.pieceLimit - 1) 97 ++ [10]))]

theorem smooth_lettersRun (n : Nat) : Smooth 10 (lettersRun n) := by
  constructor <;> simp [lettersRun]

theorem lines_lettersRun (n : Nat) : lines (.start true) (lettersRun n) = [] := rfl

theorem endsIn_lettersRun (n : Nat) :
    EndsIn 10 (script (lettersRun n)) 0 (List.replicate (n + (Wire.pieceLimit - 1)) 97 ++ [10])
      n := by
  have last : Wire.pieces Wire.pieceLimit (List.replicate (Wire.pieceLimit - 1) 97 ++ [10]) =
      [List.replicate (Wire.pieceLimit - 1) 97 ++ [10]] := by
    refine Wire.pieces_of_length_le (by simp) ?_
    rw [List.length_append, List.length_replicate]
    decide
  have letters := Wire.flatMap_bytes_pieces Wire.pieceLimit (List.replicate n 97)
  have split : script (lettersRun n) =
      (Wire.pieces Wire.pieceLimit (List.replicate n 97)).map .piece ++
        [.piece (List.replicate (Wire.pieceLimit - 1) 97 ++ [10])] := by
    simp [script, lettersRun, Step.script, last]
  refine ⟨_, _, [], [], split, ?_, ⟨_, rfl, by simp⟩, ?_, ?_, ?_⟩
  · rw [letters, List.length_replicate]
  · rw [split, List.flatMap_append, letters, ← List.replicate_append_replicate]
    simp only [Arrival.bytes, List.flatMap_singleton, List.drop_zero, List.append_assoc,
      List.append_nil]
  · simp only [List.length_append, List.length_replicate, List.length_singleton]
    omega
  · simp only [List.length_append, List.length_replicate, List.length_singleton]
    omega

/-- The longest line that is given out; one that is longer by a byte; and a read for another
delimiter behind that, though the delimiter is there. -/
theorem limit_of_lettersRun :
    (step (run (.start true) (lettersRun 65535)).1 (.start (.read 10))).2.answer? =
        some (.line (List.replicate 66558 97 ++ [10])) ∧
      let full := step (run (.start true) (lettersRun 65536)).1 (.start (.read 10))
      full.2.answer? = some (.failed .bufferFull) ∧
        (step full.1 (.start (.read 97))).2.answer? = some (.failed .bufferFull) := by
  have fits := (limit_is_exact true (lettersRun 65535)).1 10 (.start (.read 10))
    (smooth_lettersRun 65535) rfl
  have overflows := (limit_is_exact true (lettersRun 65536)).1 10 (.start (.read 10))
    (smooth_lettersRun 65536) rfl
  rw [lines_lettersRun] at fits overflows
  have full := (overflows.1 _ _ (endsIn_lettersRun 65536)).1
  have later := (limit_is_exact true (lettersRun 65536)).2.1 10 (.start (.read 10)) rfl full [] 97
    (.start (.read 97)) rfl
  have here : ∀ s : State, (run s []).1 = s := fun _ => rfl
  simp only [here] at later
  exact ⟨(fits.1 _ _ (endsIn_lettersRun 65535)).1, full, later.1⟩

end Channel
end LineExchange
