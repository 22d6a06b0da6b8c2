import LineExchange.Channel.ChannelError
import LineExchange.Channel.Inbox
import LineExchange.Channel.Wire

/-!
# Patient — reading lines from a stream by waiting for it

A patient reader holds up its caller until a line has come.  This file defines:

* `Patient` — bytes that came in and were not used, and the script of what will arrive;
* `Patient.collect` — adds what comes in to a line that was begun;
* `Patient.readLine` — the next line, or an error.

A line takes at most `Inbox.capacity` bytes with its delimiter.  The bytes of a line that was
begun are gone when an error ends the reading, unless the error is only an interruption, after
which the reading goes on.
-/

namespace LineExchange

/-- A reader that waits. -/
structure Patient where
  pending : Bytes
  arrivals : List Arrival
  deriving DecidableEq, Repr

namespace Patient

/-- A reader of a stream from which nothing came. -/
def ofArrivals (arrivals : List Arrival) : Patient :=
  ⟨[], arrivals⟩

/-- What a line that was begun is with the bytes that are pending. -/
inductive Filled where
  /-- A line, and what is left. -/
  | line (line rest : Bytes)
  /-- Too long a line, and what is left. -/
  | full (rest : Bytes)
  /-- Not yet a line, with the room that is left for it. -/
  | short (line : Bytes) (room : Nat)
  deriving DecidableEq, Repr

/-- Adds to `line` at most `room` of the bytes `pending`, up to the delimiter `d`. -/
def fill (d : UInt8) (room : Nat) (line pending : Bytes) : Filled :=
  match Line.cut? d (pending.take room) with
  | some (head, _) => .line (line ++ head) (pending.drop head.length)
  | none =>
      if room ≤ pending.length then .full (pending.drop room)
      else .short (line ++ pending) (room - pending.length)

/-- Collects at most `room` bytes behind those of `line`, up to the delimiter `d`: first from
`pending`, then from what arrives.  There is no result when the script ends before the line. -/
def collect (d : UInt8) (room : Nat) (line pending : Bytes) :
    List Arrival → Patient × Option (Except ChannelError Bytes)
  | [] =>
      match fill d room line pending with
      | .line line rest => (⟨rest, []⟩, some (.ok line))
      | .full rest => (⟨rest, []⟩, some (.error .bufferFull))
      | .short .. => (⟨[], []⟩, none)
  | a :: rest' =>
      match fill d room line pending with
      | .line line rest => (⟨rest, a :: rest'⟩, some (.ok line))
      | .full rest => (⟨rest, a :: rest'⟩, some (.error .bufferFull))
      | .short line room =>
          match a with
          | .piece [] | .close => (⟨[], rest'⟩, some (.error .endOfStream))
          | .piece (b :: bs) => collect d room line (b :: bs) rest'
          | .failure e =>
              if e.kind = .interrupted then collect d room line [] rest'
              else (⟨[], rest'⟩, some (.error (.io e)))

/-- The next line that ends in `d`. -/
def readLine (d : UInt8) (r : Patient) : Patient × Option (Except ChannelError Bytes) :=
  collect d Inbox.capacity [] r.pending r.arrivals

end Patient
end LineExchange
