import LineExchange.Channel.Patient
import LineExchange.Proofs.Channel.Framing

/-!
# Agreement — both readers give the same lines, and then the same error

A channel searches its inbox from a position on and looks at the length before each read; a patient
reader fills a line up to a limit and looks at the room that is left.  This file compares what they
give when they read the same bytes, to the end of the stream, again and again.  It defines:

* `Line.verdicts` — what splitting says: the segments that fit, and the error behind them;
* `Line.Outcome` — what one read may come to, when lines shorter than a limit may be given out;
* `Line.results` — what is read until the first error;
* `Channel.Expecting` and `Patient.Expecting` — a reader with the bytes before it, and then the end.

A channel may give out a line that is too long by less than a piece, which arrived at once; that is
all the difference in their outcomes (`read_settles`, `readLine_settles`).  Where no segment has
such a length, every reader with these outcomes follows the verdicts (`results_eq_take`).
-/

namespace LineExchange
namespace Line

variable {d : UInt8} {bs line rest : Bytes} {limit : Nat}

/-! ## What splitting says -/

def tail (d : UInt8) (bs : Bytes) : Bytes :=
  (bs.splitOn d).getLastD []

/-- What reading the bytes `bs` again and again comes to, when the end is behind them. -/
def verdicts (d : UInt8) (bs : Bytes) : List (Except ChannelError Bytes) :=
  let fitting := (segments d bs).takeWhile (·.length ≤ Inbox.capacity)
  let allFit := fitting = segments d bs ∧ (tail d bs).length < Inbox.capacity
  fitting.map .ok ++ [.error (if allFit then .endOfStream else .bufferFull)]

theorem tail_append (isLine : IsLine d line) : tail d (line ++ rest) = tail d rest := by
  rcases isLine with ⟨body, rfl, free⟩
  have split := List.splitOn_append_cons_self_of_not_mem free rest
  rw [tail, List.append_assoc, List.singleton_append, split]
  cases parts : rest.splitOn d with
  | nil => exact absurd parts (List.splitOn_ne_nil d rest)
  | cons part parts => simp [tail, parts]

theorem verdicts_append (isLine : IsLine d line) (short : line.length ≤ Inbox.capacity) :
    verdicts d (line ++ rest) = .ok line :: verdicts d rest := by
  simp [verdicts, segments_append isLine, tail_append isLine, short]

theorem verdicts_of_long (isLine : IsLine d line) (long : Inbox.capacity < line.length) :
    verdicts d (line ++ rest) = [.error .bufferFull] := by
  have unfit : ¬line.length ≤ Inbox.capacity := Nat.not_le.2 long
  simp [verdicts, segments_append isLine, unfit]

theorem verdicts_of_free (free : d ∉ bs) :
    verdicts d bs =
      [.error (if bs.length < Inbox.capacity then .endOfStream else .bufferFull)] := by
  simp [verdicts, segments, tail, List.splitOn_eq_singleton free]

/-! ## Readers -/

/-- What one read of the bytes `bs`, with the end behind them, may come to, when it leaves `rest`. -/
inductive Outcome (d : UInt8) (limit : Nat) (bs : Bytes) :
    Except ChannelError Bytes → Bytes → Prop where
  | line {line rest : Bytes} (isLine : IsLine d line) (split : line ++ rest = bs)
      (short : line.length < limit) : Outcome d limit bs (.ok line) rest
  | full {part rest : Bytes} (free : d ∉ part) (split : part ++ rest = bs)
      (long : Inbox.capacity ≤ part.length) : Outcome d limit bs (.error .bufferFull) rest
  | ended (free : d ∉ bs) (short : bs.length < Inbox.capacity) :
      Outcome d limit bs (.error .endOfStream) []

/-- No segment of `bs` is too long and yet shorter than the limit. -/
def Spares (d : UInt8) (limit : Nat) (bs : Bytes) : Prop :=
  ∀ line ∈ segments d bs, ¬(Inbox.capacity < line.length ∧ line.length < limit)

/-- A line that is given out is the first verdict. -/
theorem Outcome.verdicts_of_line (outcome : Outcome d limit bs (.ok line) rest)
    (spares : Spares d limit bs) :
    verdicts d bs = .ok line :: verdicts d rest ∧ Spares d limit rest := by
  cases outcome with
  | line isLine split short =>
      subst split
      rw [Spares, segments_append isLine] at spares
      have fits : line.length ≤ Inbox.capacity := by
        have spared := spares line List.mem_cons_self
        omega
      exact ⟨verdicts_append isLine fits, fun other mem => spares other (List.mem_cons_of_mem _ mem)⟩

/-- An error is the only verdict. -/
theorem Outcome.verdicts_of_error {e : ChannelError} (outcome : Outcome d limit bs (.error e) rest) :
    verdicts d bs = [.error e] := by
  cases outcome with
  | @full part _ free split long =>
      subst split
      cases found : cut? d rest with
      | none =>
          have hfree : d ∉ part ++ rest := by
            simpa [free] using cut?_eq_none_iff.1 found
          have unfit : ¬(part ++ rest).length < Inbox.capacity := by
            rw [List.length_append]
            omega
          rw [verdicts_of_free hfree, if_neg unfit]
      | some cut =>
          -- The delimiter comes behind the bytes that were too many.
          rcases cut with ⟨head, behind⟩
          have isLine : IsLine d head := isLine_of_cut? found
          have long' : Inbox.capacity < (part ++ head).length := by
            have hpos := isLine.length_pos
            rw [List.length_append]
            omega
          rw [← append_of_cut? found, ← List.append_assoc]
          exact verdicts_of_long (isLine.append_left free) long'
  | ended free short => rw [verdicts_of_free free, if_pos short]

/-- What is read again and again, at most `n` times, until the first error. -/
def results {σ : Type} (read : σ → σ × Option (Except ChannelError Bytes)) :
    Nat → σ → List (Except ChannelError Bytes)
  | 0, _ => []
  | n + 1, s =>
      match read s with
      | (s', some (.ok line)) => .ok line :: results read n s'
      | (_, some (.error e)) => [.error e]
      | (_, none) => []

/-- A read of the bytes `bs` came to what it may, and behind a line there is the rest. -/
def Settles {σ : Type} (d : UInt8) (limit : Nat) (Holds : Bytes → σ → Prop) (bs : Bytes)
    (r : σ × Option (Except ChannelError Bytes)) : Prop :=
  ∃ result rest, r.2 = some result ∧ Outcome d limit bs result rest ∧
    ∀ line, result = .ok line → Holds rest r.1

/-- A reader whose every read settles follows the verdicts. -/
theorem results_eq_take {σ : Type} {read : σ → σ × Option (Except ChannelError Bytes)}
    {Holds : Bytes → σ → Prop} {s : σ}
    (settles : ∀ bs s, Holds bs s → Settles d limit Holds bs (read s)) (holds : Holds bs s)
    (spares : Spares d limit bs) (n : Nat) : results read n s = (verdicts d bs).take n := by
  induction n generalizing bs s with
  | zero => rfl
  | succ n ih =>
      rcases settles bs s holds with ⟨result, rest, came, outcome, next⟩
      cases did : read s with
      | mk s' r =>
          rw [did] at came next
          obtain rfl : r = some result := came
          cases result with
          | ok line =>
              rcases outcome.verdicts_of_line spares with ⟨first, spared⟩
              simp only [results, did]
              rw [first, List.take_succ_cons, ih (next line rfl) spared]
          | error e => simp [results, did, outcome.verdicts_of_error]

end Line

def Arrival.script (pieces : List Bytes) : List Arrival :=
  pieces.map .piece ++ [.close]

/-! ## Channels -/

def Poll.result? {ρ σ : Type} : Poll ρ σ → Option ρ
  | .ready result => some result
  | .pending _ => none

namespace Channel

def read (l : Latch) (d : UInt8) (c : Channel) : Channel × Option (Except ChannelError Bytes) :=
  ((c.pollRead l d).1, (c.pollRead l d).2.result?)

/-- The bytes `bs` are before the channel, in its inbox or in pieces of at most `most` bytes, and
then the end; what was not looked at is at most a piece, and what was looked at leaves room for
one. -/
structure Expecting (most : Nat) (d : UInt8) (bs : Bytes) (c : Channel) : Prop where
  clean : d ∉ c.inbox.seen
  room : c.inbox.scanned < Inbox.capacity
  unseen : c.inbox.unseen.length ≤ most
  script : ∃ pieces : List Bytes, (∀ piece ∈ pieces, piece ≠ [] ∧ piece.length ≤ most) ∧
    c.wire.arrivals = Arrival.script pieces ∧ c.inbox.bytes ++ pieces.flatten = bs

variable {l : Latch} {most : Nat} {d : UInt8} {bs : Bytes} {c c' : Channel} {wait : Wait}
  {i : Inbox}

namespace Expecting

/-- What a search finds: a line or too many bytes, with which the read is settled; or there is room
for more, and everything was looked at. -/
theorem offer {o : Inbox.Offer} (h : Expecting most d bs c) (offered : c.inbox.offer d = (i, o)) :
    match o with
    | .line line =>
        Line.Settles d (Inbox.capacity + most) (Expecting most d) bs
          ({ c with inbox := i }, some (.ok line))
    | .full =>
        Line.Settles d (Inbox.capacity + most) (Expecting most d) bs
          ({ c with inbox := i }, some (.error .bufferFull))
    | .more => Expecting most d bs { c with inbox := i } ∧ i.unseen = [] := by
  rcases h with ⟨clean, room, unseen, pieces, small, arrivals, bytes⟩
  rcases Inbox.offer_spec clean offered with ⟨kept, clean', lines⟩
  cases found : Line.cut? d c.inbox.unseen with
  | some cut =>
      rcases cut with ⟨head, behind⟩
      have parts := congrArg List.length (Line.append_of_cut? found)
      rw [List.length_append] at parts
      simp only [Inbox.offer, found, Prod.mk.injEq] at offered
      rcases offered with ⟨rfl, rfl⟩
      refine ⟨_, behind ++ pieces.flatten, rfl, .line (lines _ rfl) ?_ ?_, ?_⟩
      · rw [← bytes, ← kept, List.append_assoc]
        rfl
      · -- The last of what was looked at before left room for a byte, and the rest is in one piece.
        rw [List.reverseAux_eq, List.length_append, List.length_reverse, c.inbox.length_seen]
        omega
      · intro _ _
        -- What is left of one piece is no longer than a piece.
        have shorter : behind.length ≤ most := by omega
        exact ⟨clean', Nat.zero_lt_succ _, shorter, pieces, small, arrivals, rfl⟩
  | none =>
      have free : d ∉ c.inbox.bytes := Inbox.not_mem_bytes clean found
      simp only [Inbox.offer, found] at offered
      by_cases full : Inbox.capacity ≤ c.inbox.look.scanned
      · rw [if_pos full] at offered
        cases offered
        rw [Inbox.scanned_look] at full
        exact ⟨_, pieces.flatten, rfl, .full free bytes full, by simp⟩
      · rw [if_neg full] at offered
        cases offered
        refine ⟨⟨clean', Nat.lt_of_not_le full, Nat.zero_le _, pieces, small, arrivals, ?_⟩, rfl⟩
        simpa using bytes

/-- One who awaits more, after everything was looked at, takes a piece or finds the end. -/
theorem await {r : Awaited} (h : Expecting most d bs c) (unraised : l.raised = false)
    (searched : c.inbox.unseen = []) (awaited : c.await l wait = (c', r)) :
    r = .arrived ∧ Expecting most d bs c' ∨
      r = .failed .endOfStream ∧
        Line.Outcome d (Inbox.capacity + most) bs (.error .endOfStream) [] := by
  rcases h with ⟨clean, room, -, pieces, small, arrivals, bytes⟩
  obtain ⟨s, wait', received⟩ : ∃ s wait', receive wait' { c with signal := s } = (c', r) := by
    cases polled : c.signal.poll l wait with
    | mk s looked =>
        cases looked with
        | none =>
            -- Only a raised latch ends the wait for it.
            have raised := Signal.raised_of_poll_eq_none (congrArg Prod.snd polled)
            rw [unraised] at raised
            cases raised
        | some wait' =>
            simp only [Channel.await, polled] at awaited
            exact ⟨s, wait', awaited⟩
  cases pieces with
  | nil =>
      have whole : c.inbox.seen.reverse = bs := by
        simpa [Inbox.bytes_eq, searched] using bytes
      simp only [receive, Wire.arrive, arrivals, Arrival.script, List.map_nil, List.nil_append,
        Prod.mk.injEq] at received
      refine .inr ⟨received.2.symm, .ended ?_ ?_⟩
      · rw [← whole, List.mem_reverse]
        exact clean
      · rw [← whole, List.length_reverse, c.inbox.length_seen]
        exact room
  | cons piece pieces =>
      rcases small piece List.mem_cons_self with ⟨hne, little⟩
      obtain ⟨b, rest, rfl⟩ := List.exists_cons_of_ne_nil hne
      simp only [receive, Wire.arrive, arrivals, Arrival.script, List.map_cons, List.cons_append,
        Prod.mk.injEq] at received
      rcases received with ⟨rfl, rfl⟩
      refine .inl ⟨rfl, clean, room, ?_, pieces, ?_, rfl, ?_⟩
      · simpa [Inbox.push, searched] using little
      · exact fun other mem => small other (List.mem_cons_of_mem _ mem)
      · simpa using bytes

end Expecting

/-- A read that goes on, after everything was looked at, comes to what it may. -/
theorem resumeRead_settles (unraised : l.raised = false) (h : Expecting most d bs c)
    (searched : c.inbox.unseen = []) :
    Line.Settles d (Inbox.capacity + most) (Expecting most d) bs
      ((c.resumeRead l d wait).1, (c.resumeRead l d wait).2.result?) := by
  -- By the recursion of the read, which goes on as long as pieces arrive without a line in them.
  fun_induction resumeRead l d wait c with
  | case1 wait c c' e awaited =>
      rcases h.await unraised searched awaited with ⟨other, -⟩ | ⟨same, outcome⟩
      · cases other
      · cases same
        exact ⟨_, _, rfl, outcome, by simp⟩
  | case2 wait c c' wait' awaited =>
      rcases h.await unraised searched awaited with ⟨other, -⟩ | ⟨other, -⟩ <;> cases other
  | case3 wait c c' awaited i line offered =>
      rcases h.await unraised searched awaited with ⟨-, came⟩ | ⟨other, -⟩
      · exact came.offer offered
      · cases other
  | case4 wait c c' awaited i offered =>
      rcases h.await unraised searched awaited with ⟨-, came⟩ | ⟨other, -⟩
      · exact came.offer offered
      · cases other
  | case5 wait c c' awaited i offered ih =>
      rcases h.await unraised searched awaited with ⟨-, came⟩ | ⟨other, -⟩
      · rcases came.offer offered with ⟨next, looked⟩
        exact ih next looked
      · cases other

/-- Every read of a channel comes to what it may. -/
theorem read_settles (unraised : l.raised = false) (bs : Bytes) (c : Channel)
    (h : Expecting most d bs c) :
    Line.Settles d (Inbox.capacity + most) (Expecting most d) bs (c.read l d) := by
  cases offered : c.inbox.offer d with
  | mk i o =>
      have found := h.offer offered
      cases o with
      | line line => simpa only [read, pollRead, Channel.offer, offered, Poll.result?] using found
      | full => simpa only [read, pollRead, Channel.offer, offered, Poll.result?] using found
      | more =>
          rcases found with ⟨next, searched⟩
          simp only [read, pollRead, Channel.offer, offered]
          exact resumeRead_settles unraised next searched

end Channel

/-! ## Patient readers -/

namespace Patient

/-- The bytes `bs` are before the reader, pending or in pieces, and then the end. -/
def Expecting (bs : Bytes) (r : Patient) : Prop :=
  ∃ pieces : List Bytes, (∀ piece ∈ pieces, piece ≠ []) ∧ r.arrivals = Arrival.script pieces ∧
    r.pending ++ pieces.flatten = bs

variable {d : UInt8} {bs line pending : Bytes} {room : Nat} {pieces : List Bytes}

/-- What filling a line comes to, as far as the bytes that are pending go. -/
theorem fill_cases (d : UInt8) (room : Nat) (line pending : Bytes) :
    (∃ head, fill d room line pending = .line (line ++ head) (pending.drop head.length) ∧
        Line.IsLine d head ∧ head ++ pending.drop head.length = pending ∧ head.length ≤ room) ∨
      (fill d room line pending = .full (pending.drop room) ∧ d ∉ pending.take room ∧
        room ≤ pending.length) ∨
      (fill d room line pending = .short (line ++ pending) (room - pending.length) ∧
        d ∉ pending ∧ pending.length < room) := by
  cases found : Line.cut? d (pending.take room) with
  | some cut =>
      rcases cut with ⟨head, behind⟩
      have part : head <+: pending.take room := ⟨behind, Line.append_of_cut? found⟩
      have whole : head ++ pending.drop head.length = pending :=
        List.prefix_iff_eq_append.1 (part.trans (List.take_prefix room pending))
      have fits : head.length ≤ room :=
        Nat.le_trans part.length_le (List.length_take_le room pending)
      exact .inl ⟨head, by simp [fill, found], Line.isLine_of_cut? found, whole, fits⟩
  | none =>
      have free := Line.cut?_eq_none_iff.1 found
      by_cases full : room ≤ pending.length
      · exact .inr (.inl ⟨by simp [fill, found, full], free, full⟩)
      · rw [List.take_of_length_le (Nat.le_of_not_le full)] at free
        exact .inr (.inr ⟨by simp [fill, found, full], free, Nat.lt_of_not_le full⟩)

/-- A line that the pending bytes end is given out before anything arrives. -/
theorem collect_of_line {whole rest : Bytes} (filled : fill d room line pending = .line whole rest)
    (arrivals : List Arrival) :
    collect d room line pending arrivals = (⟨rest, arrivals⟩, some (.ok whole)) := by
  cases arrivals <;> simp only [collect, filled]

/-- A line that the pending bytes fill up is refused before anything arrives. -/
theorem collect_of_full {rest : Bytes} (filled : fill d room line pending = .full rest)
    (arrivals : List Arrival) :
    collect d room line pending arrivals = (⟨rest, arrivals⟩, some (.error .bufferFull)) := by
  cases arrivals <;> simp only [collect, filled]

/-- A line that the pending bytes end, or fill up, settles the read before anything arrives. -/
theorem collect_settles_or_short (hne : ∀ piece ∈ pieces, piece ≠ []) (free : d ∉ line)
    (limited : line.length + room = Inbox.capacity)
    (bytes : line ++ (pending ++ pieces.flatten) = bs) :
    Line.Settles d (Inbox.capacity + 1) Expecting bs
        (collect d room line pending (Arrival.script pieces)) ∨
      fill d room line pending = .short (line ++ pending) (room - pending.length) ∧
        d ∉ line ++ pending ∧ pending.length < room := by
  -- What is pending ends the line, or it fills the room, or it is not enough.
  rcases fill_cases d room line pending with
    ⟨head, filled, isLine, whole, fits⟩ | ⟨filled, free', long⟩ | ⟨filled, free', short⟩
  · rw [collect_of_line filled]
    refine .inl ⟨_, pending.drop head.length ++ pieces.flatten, rfl,
      .line (isLine.append_left free) ?_ ?_, ?_⟩
    · rw [← bytes, List.append_assoc, ← List.append_assoc head, whole]
    · rw [List.length_append]
      omega
    · exact fun _ _ => ⟨pieces, hne, rfl, rfl⟩
  · have hfree : d ∉ line ++ pending.take room := by simp [free, free']
    rw [collect_of_full filled]
    refine .inl ⟨_, pending.drop room ++ pieces.flatten, rfl, .full hfree ?_ ?_, by simp⟩
    · rw [← bytes, List.append_assoc, ← List.append_assoc (pending.take room),
        List.take_append_drop]
    · rw [List.length_append, List.length_take_of_le long]
      omega
  · exact .inr ⟨filled, by simp [free, free'], short⟩

/-- Collecting behind the bytes of a line that was begun comes to what a read may. -/
theorem collect_settles (hne : ∀ piece ∈ pieces, piece ≠ []) (free : d ∉ line)
    (limited : line.length + room = Inbox.capacity)
    (bytes : line ++ (pending ++ pieces.flatten) = bs) :
    Line.Settles d (Inbox.capacity + 1) Expecting bs
      (collect d room line pending (Arrival.script pieces)) := by
  -- By the pieces: each of them finds a longer line and less room.
  induction pieces generalizing room line pending with
  | nil =>
      rcases collect_settles_or_short hne free limited bytes with
        settled | ⟨filled, free', short⟩
      · exact settled
      · have whole : line ++ pending = bs := by simpa using bytes
        refine ⟨.error .endOfStream, [], ?_, .ended (whole ▸ free') ?_, by simp⟩
        · simp only [Arrival.script, List.map_nil, List.nil_append, collect, filled]
        · rw [← whole, List.length_append]
          omega
  | cons piece pieces ih =>
      rcases collect_settles_or_short hne free limited bytes with
        settled | ⟨filled, free', short⟩
      · exact settled
      · obtain ⟨b, rest, rfl⟩ := List.exists_cons_of_ne_nil (hne piece List.mem_cons_self)
        have collected : collect d room line pending (Arrival.script ((b :: rest) :: pieces)) =
            collect d (room - pending.length) (line ++ pending) (b :: rest)
              (Arrival.script pieces) := by
          simp only [Arrival.script, List.map_cons, List.cons_append, collect, filled]
        rw [collected]
        apply ih (fun other mem => hne other (List.mem_cons_of_mem _ mem)) free'
        · rw [List.length_append]
          omega
        · simpa using bytes

/-- Every read of a patient reader comes to what it may. -/
theorem readLine_settles (d : UInt8) (bs : Bytes) (r : Patient) (h : Expecting bs r) :
    Line.Settles d (Inbox.capacity + 1) Expecting bs (r.readLine d) := by
  rcases r with ⟨pending, arrivals⟩
  rcases h with ⟨pieces, hne, rfl, bytes⟩
  exact collect_settles hne List.not_mem_nil (Nat.zero_add _) bytes

end Patient

namespace Channel

/-- A channel and a patient reader read the same bytes `w`, each in its own pieces and then the end;
the channel's are of at most `Wire.pieceLimit` bytes, and its latch is not raised.  Where no segment
of `w` is too long by less than such a piece (65,537 to 66,559 bytes), reading again and again until
the first error gives the same with both: the segments of `w` up to the first that is too long, and
then an error, which says whether the bytes behind them were too many or came to the end. -/
theorem agrees_with_patient {l : Latch} (unraised : l.raised = false) (signal : Signal)
    {d : UInt8} {w : Bytes} {wire : Wire} {pieces chunks : List Bytes}
    (script : wire.arrivals = Arrival.script pieces) (cut : pieces.flatten = w)
    (small : ∀ piece ∈ pieces, piece ≠ [] ∧ piece.length ≤ Wire.pieceLimit)
    (cut' : chunks.flatten = w) (hne : ∀ chunk ∈ chunks, chunk ≠ [])
    (spares : ∀ line ∈ Line.segments d w,
      ¬(Inbox.capacity < line.length ∧ line.length < Inbox.capacity + Wire.pieceLimit))
    (n : Nat) :
    let byChannel := Line.results (read l d) n (ofWire wire signal)
    let byPatient := Line.results (Patient.readLine d) n (.ofArrivals (Arrival.script chunks))
    byChannel = byPatient ∧ byPatient = (Line.verdicts d w).take n := by
  intro byChannel byPatient
  have expecting : Expecting Wire.pieceLimit d w (ofWire wire signal) :=
    ⟨List.not_mem_nil, Nat.zero_lt_succ _, Nat.zero_le _, pieces, small, script, cut⟩
  have channel : byChannel = (Line.verdicts d w).take n :=
    Line.results_eq_take (read_settles unraised) expecting spares n
  have waiting : Patient.Expecting w (.ofArrivals (Arrival.script chunks)) :=
    ⟨chunks, hne, rfl, cut'⟩
  -- A patient reader gives out no line that is too long, so nothing is to be spared.
  have nothing : Line.Spares d (Inbox.capacity + 1) w := by
    intro line _ between
    omega
  have patient : byPatient = (Line.verdicts d w).take n :=
    Line.results_eq_take (Patient.readLine_settles d) waiting nothing n
  exact ⟨channel.trans patient.symm, patient⟩

def twoLines : Bytes :=
  [97, 10, 98, 10, 99]

theorem agrees_on_twoLines :
    let pieces : List Bytes := [[97], [10, 98], [10, 99]]
    let chunks : List Bytes := [[97, 10, 98, 10], [99]]
    let wire := { Wire.blank with arrivals := Arrival.script pieces }
    pieces.flatten = twoLines ∧ chunks.flatten = twoLines ∧
      Line.results (read .never 10) 4 (ofWire wire .first) =
        Line.results (Patient.readLine 10) 4 (.ofArrivals (Arrival.script chunks)) := by
  intro pieces chunks wire
  have script : wire.arrivals = Arrival.script pieces := rfl
  have cut : pieces.flatten = twoLines := rfl
  have cut' : chunks.flatten = twoLines := rfl
  have small : ∀ piece ∈ pieces, piece ≠ [] ∧ piece.length ≤ Wire.pieceLimit := by
    decide
  have hne : ∀ chunk ∈ chunks, chunk ≠ [] := by
    decide
  have spares : ∀ line ∈ Line.segments 10 twoLines,
      ¬(Inbox.capacity < line.length ∧ line.length < Inbox.capacity + Wire.pieceLimit) := by
    decide
  have agrees := agrees_with_patient (l := .never) rfl .first script cut small cut' hne spares 4
  exact ⟨cut, cut', agrees.1⟩

end Channel
end LineExchange
