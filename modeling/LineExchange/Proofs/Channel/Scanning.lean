import LineExchange.Channel.Run
import LineExchange.Proofs.Channel.Reading

/-!
# Scanning — the scan position changes no result

An inbox remembers how far it was looked at, so that a read that goes on does not look at the same
bytes again.  This file compares it with two simpler readers:

* `Window` — a flat buffer with a position in it, from which the search starts; the search fails
  when the position lies outside;
* `Inbox.rescan`, `Channel.resumeAnew`, `Channel.pollAnew` and `Channel.runAnew` — a reader that
  starts every search at the first byte.

The position of an inbox never lies outside (`offer?_window`).  As long as there is no delimiter
before it, starting anew makes the same offer and leaves the same inbox (`offer_rescan`), so whole
polls agree as well (`resumeAnew_eq`, `pollAnew_eq`).
-/

namespace LineExchange
namespace Line

variable {d : UInt8} {bs : Bytes}

/-- The first line ends where the delimiter is found. -/
theorem cut?_eq_findIdx? (d : UInt8) (bs : Bytes) :
    cut? d bs = (bs.findIdx? (· == d)).map fun n => (bs.take (n + 1), bs.drop (n + 1)) := by
  induction bs with
  | nil => rfl
  | cons b bs ih =>
      by_cases here : b = d
      · simp [cut?, here, List.findIdx?_cons]
      · have shift : cut? d (b :: bs) = (cut? d bs).map fun (line, rest) => (b :: line, rest) := by
          simp only [cut?, List.dropWhile_cons, List.takeWhile_cons]
          simp only [bne_iff_ne, ne_eq, here, not_false_eq_true, if_true]
          split <;> simp
        rw [shift, ih, List.findIdx?_cons]
        simp [here, Function.comp_def]

/-- Bytes without a delimiter before the others only make the first line longer. -/
theorem cut?_append {free : Bytes} (h : d ∉ free) :
    cut? d (free ++ bs) = (cut? d bs).map fun (line, rest) => (free ++ line, rest) := by
  have passes : ∀ b ∈ free, (b != d) = true := by
    intro b mem
    simp only [bne_iff_ne, ne_eq]
    rintro rfl
    exact h mem
  unfold cut?
  rw [List.dropWhile_append_of_pos passes, List.takeWhile_append_of_pos passes]
  split <;> simp

/-- A line that stands first is the first line. -/
theorem cut?_of_isLine {line : Bytes} (isLine : IsLine d line) (rest : Bytes) :
    cut? d (line ++ rest) = some (line, rest) := by
  rcases isLine with ⟨body, rfl, free⟩
  rw [List.append_assoc, cut?_append free]
  simp [cut?]

end Line

/-! ## A flat buffer -/

/-- A flat buffer with a position before which there was no delimiter. -/
structure Window where
  bytes : Bytes
  scanned : Nat

/-- The first line from the position on, unless the position lies outside. -/
def Window.offer? (d : UInt8) (w : Window) : Option (Window × Inbox.Offer) :=
  if w.scanned ≤ w.bytes.length then
    match (w.bytes.drop w.scanned).findIdx? (· == d) with
    | some pos =>
        let stop := w.scanned + pos + 1
        some (⟨w.bytes.drop stop, 0⟩, .line (w.bytes.take stop))
    | none =>
        some (⟨w.bytes, w.bytes.length⟩,
          if Inbox.capacity ≤ w.bytes.length then .full else .more)
  else none

namespace Inbox

variable {d : UInt8} {i : Inbox}

def window (i : Inbox) : Window :=
  ⟨i.bytes, i.scanned⟩

theorem scanned_le (i : Inbox) : i.scanned ≤ i.bytes.length := by
  simp [bytes_eq, i.length_seen]

/-- The flat buffer makes the same offer, and its position never lies outside. -/
theorem offer?_window (d : UInt8) (i : Inbox) :
    i.window.offer? d = some ((i.offer d).1.window, (i.offer d).2) := by
  have inside : i.window.scanned ≤ i.window.bytes.length := i.scanned_le
  simp only [Window.offer?, if_pos inside]
  simp only [window, drop_scanned, offer, Line.cut?_eq_findIdx?]
  cases found : i.unseen.findIdx? (· == d) with
  | none =>
      simp only [Option.map_none, bytes_look, scanned_look]
      rfl
  | some pos =>
      -- The search begins at the position, so what it finds is counted from there.
      have behind (n : Nat) : i.bytes.drop (i.scanned + n) = i.unseen.drop n := by
        rw [← List.drop_drop, drop_scanned]
      have before (n : Nat) : i.bytes.take (i.scanned + n) = i.seen.reverse ++ i.unseen.take n := by
        rw [List.take_add, take_scanned, drop_scanned]
      simp only [Nat.add_assoc, behind, before, Option.map_some, List.reverseAux_eq]
      rfl

/-! ## Searches that start anew -/

/-- The inbox as if nothing had been looked at. -/
def rescan (i : Inbox) : Inbox :=
  .ofUnseen i.bytes

/-- Starting anew makes the same offer and leaves the same inbox. -/
theorem offer_rescan (clean : d ∉ i.seen) : i.rescan.offer d = i.offer d := by
  have free : d ∉ i.seen.reverse := by simpa using clean
  simp only [offer, rescan, ofUnseen, bytes_eq, Line.cut?_append free]
  cases Line.cut? d i.unseen with
  | none => simp [look, List.reverseAux_eq, i.length_seen]
  | some cut => simp [List.reverseAux_eq]

end Inbox

namespace Channel

variable {l : Latch} {d : UInt8} {wait : Wait} {c : Channel}

/-- Goes on reading a line, with every search anew. -/
def resumeAnew (l : Latch) (d : UInt8) (wait : Wait) (c : Channel) : Channel × ReadPoll :=
  match _h : await l wait c with
  | (c', .failed e) => (c', .ready (.error e))
  | (c', .pending wait) => (c', .pending wait)
  | (c', .arrived) =>
      match c'.inbox.rescan.offer d with
      | (i, .line bs) => ({ c' with inbox := i }, .ready (.ok bs))
      | (i, .full) => ({ c' with inbox := i }, .ready (.error .bufferFull))
      | (i, .more) => resumeAnew l d .unpolled { c' with inbox := i }
termination_by c.wire.arrivals.length
decreasing_by exact length_arrivals_of_await_arrived _h

def pollAnew (l : Latch) (d : UInt8) (c : Channel) : Channel × ReadPoll :=
  match c.inbox.rescan.offer d with
  | (i, .line bs) => ({ c with inbox := i }, .ready (.ok bs))
  | (i, .full) => ({ c with inbox := i }, .ready (.error .bufferFull))
  | (i, .more) => resumeAnew l d .unpolled { c with inbox := i }

/-- When a piece arrived, a search anew makes the offer that the search from the position makes. -/
theorem resumeAnew_of_arrived {c' : Channel} (awaited : await l wait c = (c', .arrived))
    (clean : d ∉ c.inbox.seen) :
    resumeAnew l d wait c =
      match c'.inbox.offer d with
      | (i, .line bs) => ({ c' with inbox := i }, .ready (.ok bs))
      | (i, .full) => ({ c' with inbox := i }, .ready (.error .bufferFull))
      | (i, .more) => resumeAnew l d .unpolled { c' with inbox := i } := by
  have still : d ∉ c'.inbox.seen := by
    rcases await_spec awaited with ⟨got, -, inbox⟩
    rw [inbox]
    exact clean
  -- `resumeAnew` is recursive through the script, so it is opened by its equation, once.
  rw [resumeAnew]
  split
  · rename_i failed
    cases awaited.symm.trans failed
  · rename_i waits
    cases awaited.symm.trans waits
  · rename_i arrived
    cases awaited.symm.trans arrived
    rw [Inbox.offer_rescan still]

/-- Going on with every search anew comes to the same. -/
theorem resumeAnew_eq (l : Latch) (wait : Wait) (clean : d ∉ c.inbox.seen) :
    resumeAnew l d wait c = resumeRead l d wait c := by
  fun_induction resumeRead l d wait c with
  | case1 wait c c' e awaited =>
      rw [resumeAnew]
      split <;> simp_all
  | case2 wait c c' wait' awaited =>
      rw [resumeAnew]
      split <;> simp_all
  | case3 wait c c' awaited i bs offered => rw [resumeAnew_of_arrived awaited clean, offered]
  | case4 wait c c' awaited i offered => rw [resumeAnew_of_arrived awaited clean, offered]
  | case5 wait c c' awaited i offered ih =>
      rw [resumeAnew_of_arrived awaited clean, offered]
      rcases await_spec awaited with ⟨got, -, inbox⟩
      have still : d ∉ c'.inbox.seen := by
        rw [inbox]
        exact clean
      exact ih (Inbox.offer_spec still offered).2.1

/-- Beginning with every search anew comes to the same. -/
theorem pollAnew_eq (l : Latch) (clean : d ∉ c.inbox.seen) : pollAnew l d c = pollRead l d c := by
  simp only [pollAnew, pollRead, offer, Inbox.offer_rescan clean]
  cases offered : c.inbox.offer d with
  | mk i o =>
      cases o with
      | line bs => rfl
      | full => rfl
      | more => exact resumeAnew_eq l .unpolled (Inbox.offer_spec clean offered).2.1

def beginAnew (s : State) : Operation → State × Option Answer
  | .read d => settleRead s d (s.channel.pollAnew s.watched d)
  | .write bs => begin s (.write bs)

def resumeFlightAnew (s : State) : Flight → State × Option Answer
  | .reading d wait => settleRead s d (s.channel.resumeAnew s.watched d wait)
  | .writing total rest => resume s (.writing total rest)

def stepAnew (s : State) : Step → State × Entry
  | .start op => entryOf (beginAnew { s with flight := none } op)
  | .poll =>
      match s.flight with
      | some f => entryOf (resumeFlightAnew s f)
      | none => step s .poll
  | .change x => step s (.change x)
  | .abandon => step s .abandon

def runAnew (s : State) : List Step → State × List Entry
  | [] => (s, [])
  | a :: as =>
      let (s', e) := stepAnew s a
      let (t, es) := runAnew s' as
      (t, e :: es)

end Channel
end LineExchange
