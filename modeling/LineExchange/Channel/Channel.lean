import LineExchange.Cancel.Latch
import LineExchange.Channel.ChannelError
import LineExchange.Channel.Inbox
import LineExchange.Channel.Wire

/-!
# Channel — lines over a stream, until they are cancelled

A channel reads lines from a stream and writes bytes to it, while a signal watches a latch.  This
file defines:

* `Channel` — the stream, the inbox and the signal; `Channel.connect` opens one;
* `Channel.await` — one look at the latch and, if it is not raised, one read;
* `Channel.pollRead`, `Channel.resumeRead` — the reading of one line, as far as it gets;
* `Channel.pollWrite` — the writing of a payload, as far as it gets.

A line that is already in the inbox is given out before the latch is looked at, and the latch is
looked at before the stream.  A read that is given up keeps the inbox as it is.  Writing looks at
no latch.
-/

namespace LineExchange

/-- How far an operation came when it was polled. -/
inductive Poll (ρ σ : Type) where
  | ready (result : ρ)
  /-- It waits, and goes on from `state`. -/
  | pending (state : σ)
  deriving DecidableEq, Repr

structure Channel where
  wire : Wire
  inbox : Inbox
  signal : Signal
  deriving DecidableEq, Repr

namespace Channel

/-- A channel over a stream from which nothing was read. -/
def ofWire (w : Wire) (s : Signal) : Channel :=
  ⟨w, .empty, s⟩

/-- Opens a channel, unless the latch is raised: over the stream that connecting brought. -/
def connect (l : Latch) (s : Signal) (dialled : Except IoError Wire) :
    Except ChannelError Channel :=
  match s.poll l .unpolled with
  | (_, none) => .error .cancelled
  | (s, some _) =>
      match dialled with
      | .ok w => .ok (ofWire w s)
      | .error e => .error (.io e)

/-! ## Reading -/

/-- What came of looking at the latch and then reading once. -/
inductive Awaited where
  | arrived
  /-- Nothing yet; the wait for the latch goes on. -/
  | pending (wait : Wait)
  | failed (error : ChannelError)
  deriving DecidableEq, Repr

def receive (wait : Wait) (c : Channel) : Channel × Awaited :=
  match c.wire.arrive with
  | (_, none) => (c, .pending wait)
  -- A read without bytes is how a stream says that it is at its end.
  | (w, some (.piece [])) => ({ c with wire := w }, .failed .endOfStream)
  | (w, some (.piece bs)) => ({ c with wire := w, inbox := c.inbox.push bs }, .arrived)
  | (w, some .close) => ({ c with wire := w }, .failed .endOfStream)
  | (w, some (.failure e)) => ({ c with wire := w }, .failed (.io e))

/-- Looks at the latch and, if it is not raised, reads once. -/
def await (l : Latch) (wait : Wait) (c : Channel) : Channel × Awaited :=
  -- A raised latch wins over a piece that is there: the piece stays in the script.
  match c.signal.poll l wait with
  | (s, none) => ({ c with signal := s }, .failed .cancelled)
  | (s, some wait) => receive wait { c with signal := s }

/-- A read that ends by a cancellation found the latch raised. -/
theorem raised_of_await_cancelled {l : Latch} {wait : Wait} {c c' : Channel}
    (h : await l wait c = (c', .failed .cancelled)) : l.raised = true := by
  unfold await at h
  split at h
  · rename_i s hp
    exact Signal.raised_of_poll_eq_none (congrArg Prod.snd hp)
  · simp only [receive] at h
    split at h <;> simp at h

/-- A piece that comes in is taken off the script. -/
theorem length_arrivals_of_receive_arrived {wait : Wait} {c c' : Channel}
    (h : receive wait c = (c', .arrived)) :
    c'.wire.arrivals.length < c.wire.arrivals.length := by
  unfold receive Wire.arrive at h
  cases ha : c.wire.arrivals with
  | nil => simp [ha] at h
  | cons a rest =>
      rw [ha] at h
      cases a with
      | piece bs =>
          cases bs with
          | nil => simp at h
          | cons b bs =>
              simp only [Prod.mk.injEq, and_true] at h
              subst h
              simp
      | close => simp at h
      | failure e => simp at h

/-- A piece that comes in is taken off the script. -/
theorem length_arrivals_of_await_arrived {l : Latch} {wait : Wait} {c c' : Channel}
    (h : await l wait c = (c', .arrived)) :
    c'.wire.arrivals.length < c.wire.arrivals.length := by
  unfold await at h
  split at h
  · simp at h
  · have shorter := length_arrivals_of_receive_arrived h
    exact shorter

/-- What the inbox has to offer for the delimiter `d`. -/
def offer (d : UInt8) (c : Channel) : Channel × Inbox.Offer :=
  let (i, o) := c.inbox.offer d
  ({ c with inbox := i }, o)

/-- How the reading of a line came along. -/
abbrev ReadPoll := Poll (Except ChannelError Bytes) Wait

/-- Goes on reading a line that ends in `d`, from a wait for the latch. -/
def resumeRead (l : Latch) (d : UInt8) (wait : Wait) (c : Channel) : Channel × ReadPoll :=
  match _h : await l wait c with
  | (c', .failed e) => (c', .ready (.error e))
  | (c', .pending wait) => (c', .pending wait)
  | (c', .arrived) =>
      match c'.inbox.offer d with
      | (i, .line bs) => ({ c' with inbox := i }, .ready (.ok bs))
      | (i, .full) => ({ c' with inbox := i }, .ready (.error .bufferFull))
      | (i, .more) => resumeRead l d .unpolled { c' with inbox := i }
termination_by c.wire.arrivals.length
decreasing_by exact length_arrivals_of_await_arrived _h

def pollRead (l : Latch) (d : UInt8) (c : Channel) : Channel × ReadPoll :=
  match c.offer d with
  | (c, .line bs) => (c, .ready (.ok bs))
  | (c, .full) => (c, .ready (.error .bufferFull))
  | (c, .more) => resumeRead l d .unpolled c

/-! ## Writing -/

/-- How the writing of a payload came along; a write that waits has the rest before it. -/
abbrev WritePoll := Poll (Except ChannelError Unit) Bytes

def finishWrite (w : Wire) : Wire × WritePoll :=
  match w.flush with
  | (w, none) => (w, .ready (.ok ()))
  | (w, some e) => (w, .ready (.error (.io e)))

/-- How much there is to do for a write of `bs`: the script, and one more write behind it. -/
def writeMeasure (bs : Bytes) (w : Wire) : Nat :=
  w.uptakes.length * 2 + (if bs = [] then 0 else 1)

theorem writeMeasure_cons (b : UInt8) (bs : Bytes) (w : Wire) :
    writeMeasure (b :: bs) w = w.uptakes.length * 2 + 1 := rfl

theorem writeMeasure_le (bs : Bytes) (w : Wire) :
    writeMeasure bs w ≤ w.uptakes.length * 2 + 1 := by
  unfold writeMeasure
  split <;> omega

/-- A write uses up a step of the script, or takes everything. -/
theorem writeMeasure_of_take_left {b : UInt8} {bs rest : Bytes} {w w' : Wire}
    (h : w.take (b :: bs) = (w', .left rest)) :
    writeMeasure rest w' < writeMeasure (b :: bs) w := by
  rw [writeMeasure_cons]
  cases hu : w.uptakes with
  | nil =>
      unfold Wire.take at h
      rw [hu] at h
      cases h
      simp [writeMeasure]
  | cons u us =>
      have shorter : w'.uptakes = us := Wire.uptakes_of_take_left hu h
      have atMost := writeMeasure_le rest w'
      rw [shorter] at atMost
      simp only [List.length_cons]
      omega

/-- Writes the bytes `bs` and flushes, as far as it gets. -/
def writeFrom (bs : Bytes) (w : Wire) : Wire × WritePoll :=
  match bs with
  | [] => finishWrite w
  | b :: bs' =>
      match _h : w.take (b :: bs') with
      | (w', .left rest) => writeFrom rest w'
      | (w', .blocked) => (w', .pending (b :: bs'))
      | (w', .failed e) => (w', .ready (.error (.io e)))
termination_by writeMeasure bs w
decreasing_by exact writeMeasure_of_take_left _h

def pollWrite (bs : Bytes) (c : Channel) : Channel × WritePoll :=
  let (w, p) := writeFrom bs c.wire
  ({ c with wire := w }, p)

end Channel
end LineExchange
