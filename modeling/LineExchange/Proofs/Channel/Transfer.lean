import Mathlib.Data.List.Induction
import LineExchange.Proofs.Channel.Reading

/-!
# Transfer — one line over one channel, however it is cut

A line goes over a stream in as many pieces as the stream likes, and each side may have to wait.
This file defines:

* `Uptake.IsGentle` and `Wire.IsGentle` — a stream that takes some bytes of a write or makes it
  wait, and fails at nothing;
* `Wire.left` and `Wait.left` — how much is left of a script, and how often a wait may still change;
* `Channel.Receiving` — a channel to which the first bytes of a line have come.

A write to a gentle stream sends a part of the bytes or waits (`IsGentle.take`); a search of the
inbox finds the line as soon as all of it is there, and no other (`Receiving.offer`); and one who
awaits more takes a piece from the stream, or waits when there is none (`Receiving.await`).
-/

namespace LineExchange

/-! ## Writing without failures -/

/-- A write is taken in part or has to wait. -/
def Uptake.IsGentle : Uptake → Prop
  | .atMost n => 0 < n
  | .blocked => True
  | .failure _ => False

namespace Wire

/-- How much the script of a stream has left, when a piece is as much as four writes. -/
def left (w : Wire) : Nat :=
  w.uptakes.length + 4 * w.arrivals.length

/-- The stream fails at no write and at no flush. -/
structure IsGentle (w : Wire) : Prop where
  uptakes : ∀ u ∈ w.uptakes, u.IsGentle
  flushes : w.flushes = []

variable {w : Wire} {b : UInt8} {bs : Bytes}

/-- A write of the bytes `b :: bs` to a gentle stream sends a part of them, or it waits and uses up
a step of the script. -/
theorem IsGentle.take (gentle : w.IsGentle) (b : UInt8) (bs : Bytes) :
    ∃ w', w'.IsGentle ∧ w'.arrivals = w.arrivals ∧
      ((∃ rest, w.take (b :: bs) = (w', .left rest) ∧ w'.sent ++ rest = w.sent ++ b :: bs ∧
          rest.length ≤ bs.length ∧ w'.uptakes.length ≤ w.uptakes.length) ∨
        w.take (b :: bs) = (w', .blocked) ∧ w'.sent = w.sent ∧
          w'.uptakes.length < w.uptakes.length) := by
  rcases w with ⟨arrivals, uptakes, flushes, sent⟩
  rcases gentle with ⟨gentle, flushes⟩
  cases uptakes with
  | nil =>
      refine ⟨⟨arrivals, [], _, sent ++ b :: bs⟩, ⟨gentle, flushes⟩, rfl, .inl ⟨[], rfl, ?_⟩⟩
      simp
  | cons u rest =>
      have others : ∀ u ∈ rest, u.IsGentle := fun u mem => gentle u (List.mem_cons_of_mem _ mem)
      cases u with
      | atMost n =>
          -- A gentle stream takes one byte at least.
          obtain ⟨n, rfl⟩ : ∃ k, n = k + 1 :=
            Nat.exists_eq_add_one.2 (gentle _ List.mem_cons_self)
          refine ⟨⟨arrivals, rest, _, sent ++ b :: bs.take n⟩, ⟨others, flushes⟩, rfl,
            .inl ⟨bs.drop n, rfl, ?_⟩⟩
          simp
      | blocked =>
          refine ⟨⟨arrivals, rest, _, sent⟩, ⟨others, flushes⟩, rfl, .inr ⟨rfl, rfl, ?_⟩⟩
          simp
      | failure e => exact (gentle _ List.mem_cons_self).elim

theorem IsGentle.flush (gentle : w.IsGentle) : w.flush = (w, none) := by
  simp only [Wire.flush, gentle.flushes]

end Wire

/-! ## Waiting for a latch that nobody raises -/

def Wait.left : Wait → Nat
  | .unpolled => 2
  | .watching => 1
  | .stranded => 0

/-- A look at a latch that was never written changes nothing but the wait, and that not for ever. -/
theorem Signal.poll_unwritten {l : Latch} (version : l.version = 0) (unraised : l.raised = false)
    (wait : Wait) : ∃ wait', Signal.first.poll l wait = (.first, some wait') ∧
      (wait' = wait ∨ wait'.left < wait.left) := by
  cases held : l.held <;> cases wait <;>
    simp [Signal.poll, Signal.look, Signal.first, Wait.left, version, unraised, held]

/-! ## Reading one line -/

namespace Line

variable {d : UInt8} {bs line : Bytes}

/-- A line is not a part of another. -/
theorem IsLine.eq_of_isPrefix (h : IsLine d bs) (k : IsLine d line) (part : bs <+: line) :
    bs = line := by
  rcases h with ⟨body, rfl, -⟩
  rcases k with ⟨rest, rfl, free⟩
  rcases part with ⟨more, same⟩
  cases more using List.reverseRecOn with
  | nil => rwa [List.append_nil] at same
  | append_singleton more b =>
      -- Else the delimiter of the first would stand before that of the second.
      rw [← List.append_assoc] at same
      have shorter : body ++ [d] ++ more = rest := (List.append_singleton_inj.1 same).1
      exact absurd (by simp [← shorter]) free

/-- A part of a line that lacks the delimiter lacks something. -/
theorem IsLine.length_lt (k : IsLine d line) (part : bs <+: line) (free : d ∉ bs) :
    bs.length < line.length := by
  rcases part with ⟨more, rfl⟩
  exact k.length_lt_of_append free (List.append_nil _).symm

end Line

namespace Inbox

variable {d : UInt8} {i : Inbox} {line : Bytes}

/-- An inbox that holds a part of a line offers the line when all of it is there, and else asks
for more. -/
theorem offer_of_isPrefix (clean : d ∉ i.seen) (isLine : Line.IsLine d line)
    (short : line.length ≤ capacity) (part : i.bytes <+: line) :
    (∃ j, i.offer d = (j, .line line)) ∨ i.offer d = (i.look, .more) ∧ d ∉ i.bytes := by
  cases offered : i.offer d with
  | mk j o =>
      rcases offer_spec clean offered with ⟨kept, -, lines⟩
      cases found : Line.cut? d i.unseen with
      | some cut =>
          simp only [offer, found, Prod.mk.injEq] at offered
          rcases offered with ⟨-, rfl⟩
          have given := lines _ rfl
          have partGiven : _ <+: line := (List.prefix_append _ j.bytes).trans (kept ▸ part)
          rw [Offer.given, given.eq_of_isPrefix isLine partGiven] at *
          exact .inl ⟨j, rfl⟩
      | none =>
          have free : d ∉ i.bytes := not_mem_bytes clean found
          -- What lacks the delimiter is shorter than the line, so there is room.
          have room : ¬capacity ≤ i.look.scanned := by
            rw [scanned_look]
            have lt := isLine.length_lt part free
            omega
          simp only [offer, found, if_neg room] at offered
          exact .inr ⟨offered ▸ rfl, free⟩

end Inbox

namespace Channel

/-- To the channel have come the first `m` bytes of `line`, in pieces, and the end behind them if
`ended`; nobody raises the latch that it watches, and its stream fails at nothing. -/
structure Receiving (line : Bytes) (m : Nat) (ended : Bool) (c : Channel) : Prop where
  bytes : c.inbox.bytes ++ c.wire.due = line.take m
  clean : Line.delimiter ∉ c.inbox.seen
  script : ∃ pieces : List Bytes, (∀ piece ∈ pieces, piece ≠ []) ∧
    c.wire.arrivals = pieces.map .piece ++ if ended then [.close] else []
  whole : ended = true → line.length ≤ m
  signal : c.signal = .first
  gentle : c.wire.IsGentle

namespace Receiving

variable {line : Bytes} {m : Nat} {ended : Bool} {c : Channel}

theorem ofWire {w : Wire} (line : Bytes) (gentle : w.IsGentle) (nothing : w.arrivals = []) :
    Receiving line 0 false (.ofWire w .first) where
  bytes := by simp [Channel.ofWire, Wire.due, nothing]
  clean := by simp [Channel.ofWire, Inbox.empty]
  script := ⟨[], by simp, by simp [Channel.ofWire, nothing]⟩
  whole := by simp
  signal := rfl
  gentle := gentle

theorem isPrefix (h : Receiving line m ended c) : c.inbox.bytes <+: line :=
  (List.prefix_append _ _).trans (h.bytes ▸ List.take_prefix m line)

/-- What was written to the channel's stream changes nothing about what comes. -/
theorem onWire {w : Wire} (h : Receiving line m ended c) (gentle : w.IsGentle)
    (same : w.arrivals = c.wire.arrivals) : Receiving line m ended { c with wire := w } := by
  rcases h with ⟨bytes, clean, script, whole, signal, -⟩
  exact ⟨by simpa [Wire.due, same] using bytes, clean, by simpa [same] using script, whole, signal,
    gentle⟩

theorem expectPiece {n : Nat} {piece : Bytes} (h : Receiving line m false c)
    (next : piece = (line.drop m).take n) (hne : piece ≠ []) :
    Receiving line (m + piece.length) false { c with wire := c.wire.expect (.piece piece) } := by
  rcases h with ⟨bytes, clean, ⟨pieces, full, script⟩, whole, signal, gentle⟩
  refine ⟨?_, clean, ⟨pieces ++ [piece], ?_, ?_⟩, by simp, signal, ⟨gentle.uptakes, gentle.flushes⟩⟩
  · have same : piece = (line.drop m).take piece.length := by
      rw [next, List.length_take]
      exact List.take_eq_take_min
    calc c.inbox.bytes ++ (c.wire.expect (.piece piece)).due
        = c.inbox.bytes ++ (c.wire.due ++ piece) := by simp [Wire.due, Wire.expect, Arrival.bytes]
      _ = line.take m ++ (line.drop m).take piece.length := by
        rw [← List.append_assoc, bytes, ← same]
      _ = line.take (m + piece.length) := (List.take_add ..).symm
  · intro p mem
    rcases List.mem_append.1 mem with old | new
    · exact full p old
    · rw [List.mem_singleton.1 new]
      exact hne
  · simp [Wire.expect, script]

theorem expectClose (h : Receiving line m false c) (whole : line.length ≤ m) :
    Receiving line m true { c with wire := c.wire.expect .close } := by
  rcases h with ⟨bytes, clean, ⟨pieces, full, script⟩, -, signal, gentle⟩
  refine ⟨?_, clean, ⟨pieces, full, ?_⟩, fun _ => whole, signal, ⟨gentle.uptakes, gentle.flushes⟩⟩
  · simpa [Wire.due, Wire.expect, Arrival.bytes] using bytes
  · simp [Wire.expect, script]

/-- A search finds the whole line, or finds that there is more to come. -/
theorem offer (h : Receiving line m ended c) (isLine : Line.IsLine Line.delimiter line)
    (short : line.length ≤ Inbox.capacity) :
    ∃ c', c'.wire = c.wire ∧
      (c.offer Line.delimiter = (c', .line line) ∨
        c.offer Line.delimiter = (c', .more) ∧ Receiving line m ended c' ∧
          Line.delimiter ∉ c'.inbox.bytes) := by
  rcases Inbox.offer_of_isPrefix h.clean isLine short h.isPrefix with ⟨j, found⟩ | ⟨more, free⟩
  · exact ⟨{ c with inbox := j }, rfl, .inl (by simp [Channel.offer, found])⟩
  · refine ⟨{ c with inbox := c.inbox.look }, rfl, .inr ⟨by simp [Channel.offer, more], ?_, ?_⟩⟩
    · have unfound : Line.delimiter ∉ c.inbox.look.seen := by
        rw [Inbox.bytes_eq, List.mem_append, List.mem_reverse, not_or] at free
        simpa [Inbox.look, List.reverseAux_eq] using free.symm
      exact ⟨by simpa using h.bytes, unfound, h.script, h.whole, h.signal, h.gentle⟩
    · simpa using free

/-- What came without the end of the line, to the last byte, is not all of it. -/
theorem lt_length (h : Receiving line m ended c) (isLine : Line.IsLine Line.delimiter line)
    (free : Line.delimiter ∉ c.inbox.bytes) (nothing : c.wire.arrivals = []) : m < line.length := by
  have came : c.inbox.bytes = line.take m := by simpa [Wire.due, nothing] using h.bytes
  have shorter := isLine.length_lt h.isPrefix free
  rw [came, List.length_take] at shorter
  omega

/-- One who awaits more waits when nothing is there, and else takes the next piece. -/
theorem await {l : Latch} (wait : Wait) (h : Receiving line m ended c)
    (isLine : Line.IsLine Line.delimiter line) (free : Line.delimiter ∉ c.inbox.bytes)
    (version : l.version = 0) (unraised : l.raised = false) :
    (c.wire.arrivals = [] ∧ ∃ wait', c.await l wait = (c, .pending wait') ∧
        (wait' = wait ∨ wait'.left < wait.left)) ∨
      ∃ c', c.await l wait = (c', .arrived) ∧ Receiving line m ended c' ∧
        c'.wire = { c.wire with arrivals := c.wire.arrivals.tail } ∧ c.wire.arrivals ≠ [] := by
  rcases Signal.poll_unwritten version unraised wait with ⟨wait', polled, settles⟩
  have looked : c.await l wait = receive wait' c := by
    rcases c with ⟨wire, inbox, signal⟩
    obtain rfl : signal = .first := h.signal
    simp only [Channel.await, polled]
  rw [looked]
  rcases h with ⟨bytes, clean, ⟨pieces, full, script⟩, whole, signal, gentle⟩
  cases pieces with
  | nil =>
      cases ended with
      | false =>
          have nothing : c.wire.arrivals = [] := by simpa using script
          exact .inl ⟨nothing, wait', by simp [receive, Wire.arrive, nothing], settles⟩
      | true =>
          -- All of the line came before the end, so the search would have found it.
          have nothing : c.wire.due = [] := by simp [Wire.due, script, Arrival.bytes]
          rw [nothing, List.append_nil, List.take_of_length_le (whole rfl)] at bytes
          rcases isLine with ⟨body, rfl, -⟩
          exact absurd (by simp [bytes]) free
  | cons piece pieces =>
      have arrivals : c.wire.arrivals = .piece piece :: (pieces.map .piece ++
          if ended then [.close] else []) := by simpa using script
      obtain ⟨b, bs, rfl⟩ := List.exists_cons_of_ne_nil (full piece List.mem_cons_self)
      refine .inr ⟨{ c with
        wire := { c.wire with arrivals := c.wire.arrivals.tail }
        inbox := c.inbox.push (b :: bs) }, ?_, ?_, rfl, by simp [arrivals]⟩
      · simp [receive, Wire.arrive, arrivals]
      · refine ⟨?_, by simpa [Inbox.push] using clean, ⟨pieces, ?_, by simp [arrivals]⟩, whole,
          signal, ⟨gentle.uptakes, gentle.flushes⟩⟩
        · rw [← bytes]
          simp [Wire.due, arrivals, Arrival.bytes]
        · exact fun p mem => full p (List.mem_cons_of_mem _ mem)

end Receiving
end Channel
end LineExchange
