import LineExchange.Net.IoError
import LineExchange.Text.Utf8

/-!
# Wire — a byte stream with a script

What a stream will do is written down beforehand: what arrives, how much of each write is taken,
and which flushes fail.  This file defines:

* `Arrival`, `Uptake` — what one read brings and what one write achieves;
* `Wire` — the script, and the bytes that were sent;
* `Wire.arrive`, `Wire.take`, `Wire.flush` — one read, one write, one flush;
* `Wire.feed` — bytes that arrive in pieces.

When its script is exhausted, a read waits, a write is taken whole, and a flush succeeds.

A read or a flush that is interrupted fails like any other, but a write that is interrupted is made
again.  That is no rule of the channel, which hands its payload on and takes what it is told: streams
with a script were seen to do so, whatever came before the interruption and behind it.
-/

namespace LineExchange

/-- What one read brings. -/
inductive Arrival where
  | piece (bytes : Bytes)
  /-- Nothing, and nothing will come. -/
  | close
  | failure (error : IoError)
  deriving DecidableEq, Repr

inductive Uptake where
  | atMost (n : Nat)
  | blocked
  | failure (error : IoError)
  deriving DecidableEq, Repr

/-- A byte stream with a script. -/
structure Wire where
  arrivals : List Arrival
  uptakes : List Uptake
  /-- The flushes that fail, before those that succeed. -/
  flushes : List IoError
  sent : Bytes
  deriving DecidableEq, Repr

namespace Wire

def blank : Wire :=
  ⟨[], [], [], []⟩

/-- The greatest size of the pieces in which a script is fed.  A read of a channel has room for more,
so an arrival that is not fed may be longer. -/
def pieceLimit : Nat := 1024

/-- Cuts `bs` into pieces of `size + 1` bytes, after the pieces `done`, last first. -/
def piecesFrom (size : Nat) (done : List Bytes) (bs : Bytes) : List Bytes :=
  match bs with
  | [] => done.reverse
  | b :: rest => piecesFrom size ((b :: rest.take size) :: done) (rest.drop size)
termination_by bs.length
decreasing_by
  simp only [List.length_drop, List.length_cons]
  omega

/-- Cuts `bs` into pieces of `size` bytes, or single bytes when `size` is zero. -/
def pieces (size : Nat) (bs : Bytes) : List Bytes :=
  piecesFrom (size - 1) [] bs

def expect (a : Arrival) (w : Wire) : Wire :=
  { w with arrivals := w.arrivals ++ [a] }

/-- The bytes `bs` will arrive in pieces of `size` bytes, or as long as pieces may be. -/
def feed (size : Nat) (bs : Bytes) (w : Wire) : Wire :=
  { w with arrivals := w.arrivals ++ (pieces (min size pieceLimit) bs).map .piece }

def allow (u : Uptake) (w : Wire) : Wire :=
  { w with uptakes := w.uptakes ++ [u] }

def failFlush (e : IoError) (w : Wire) : Wire :=
  { w with flushes := w.flushes ++ [e] }

/-- One read, if it does not wait.  A read without bytes means that nothing will come. -/
def arrive (w : Wire) : Wire × Option Arrival :=
  match w.arrivals with
  | [] => (w, none)
  | a :: rest => ({ w with arrivals := rest }, some a)

inductive Taken where
  | left (rest : Bytes)
  | blocked
  | failed (error : IoError)
  deriving DecidableEq, Repr

/-- The first `n` bytes of `bs` are taken; that none are is a failure. -/
def takeSome (n : Nat) (bs : Bytes) (w : Wire) : Wire × Taken :=
  match bs.take n with
  -- Writing nothing at all would go on for ever.
  | [] => (w, .failed (.bare .writeZero))
  | taken => ({ w with sent := w.sent ++ taken }, .left (bs.drop n))

/-- A write of `bs` fails; one that was merely interrupted has everything left, and is made again. -/
def takeFailure (e : IoError) (bs : Bytes) : Taken :=
  match e.kind with
  | .interrupted => .left bs
  | _ => .failed e

/-- One write of `bs`, which is not empty. -/
def take (bs : Bytes) (w : Wire) : Wire × Taken :=
  match w.uptakes with
  -- Behind its script a stream takes everything.
  | [] => ({ w with sent := w.sent ++ bs }, .left [])
  | .atMost n :: rest => takeSome n bs { w with uptakes := rest }
  | .blocked :: rest => ({ w with uptakes := rest }, .blocked)
  | .failure e :: rest => ({ w with uptakes := rest }, takeFailure e bs)

/-- A write that is not refused uses up one step of the script. -/
theorem uptakes_of_take_left {u : Uptake} {us : List Uptake} {bs rest : Bytes} {w w' : Wire}
    (hu : w.uptakes = u :: us) (h : w.take bs = (w', .left rest)) : w'.uptakes = us := by
  unfold take at h
  rw [hu] at h
  cases u with
  | atMost n =>
      simp only [takeSome] at h
      split at h
      · cases congrArg Prod.snd h
      · exact (congrArg (uptakes ∘ Prod.fst) h).symm
  | blocked => cases congrArg Prod.snd h
  | failure e => exact (congrArg (uptakes ∘ Prod.fst) h).symm

def flush (w : Wire) : Wire × Option IoError :=
  match w.flushes with
  | [] => (w, none)
  | e :: rest => ({ w with flushes := rest }, some e)

end Wire
end LineExchange
