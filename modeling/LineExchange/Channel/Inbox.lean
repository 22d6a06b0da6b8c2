import LineExchange.Line

/-!
# Inbox — bytes that came in and were not yet given out

An inbox keeps the bytes behind the last line that it gave out: those that were looked at for a
delimiter apart from those that were not.  This file defines:

* `Inbox` with its view `Inbox.bytes`, the bytes in the order of their coming;
* `Inbox.capacity` — how many bytes may wait for a delimiter;
* `Inbox.offer` — the first line, or whether there is room for more;
* `Inbox.push` — a piece comes in.

Bytes that were looked at once are not looked at again, whatever the delimiter, until a line is
given out.  The bytes that were looked at stand last first, so that each of them is moved only
once, however small the pieces are.
-/

namespace LineExchange

/-- Bytes that came in and were not yet given out. -/
structure Inbox where
  /-- The bytes that were looked at, last first. -/
  seen : Bytes
  /-- How many bytes were looked at. -/
  scanned : Nat
  unseen : Bytes
  length_seen : seen.length = scanned := by rfl
  deriving DecidableEq, Repr

namespace Inbox

/-- How many bytes may wait for a delimiter. -/
def capacity : Nat := 65536

def empty : Inbox where
  seen := []
  scanned := 0
  unseen := []

/-- The bytes in the order of their coming. -/
def bytes (i : Inbox) : Bytes :=
  i.seen.reverseAux i.unseen

/-- What an inbox has to offer. -/
inductive Offer where
  /-- A line, with its delimiter. -/
  | line (line : Bytes)
  | full
  | more
  deriving DecidableEq, Repr

/-- Nothing was looked at of the bytes `bs`. -/
def ofUnseen (bs : Bytes) : Inbox where
  seen := []
  scanned := 0
  unseen := bs

/-- All of the bytes were looked at. -/
def look (i : Inbox) : Inbox where
  seen := i.unseen.reverseAux i.seen
  scanned := i.scanned + i.unseen.length
  unseen := []
  length_seen := by
    rw [List.reverseAux_eq, List.length_append, List.length_reverse, i.length_seen, Nat.add_comm]

/-- Looks for the delimiter `d` in the bytes that were not looked at. -/
def offer (d : UInt8) (i : Inbox) : Inbox × Offer :=
  match Line.cut? d i.unseen with
  -- The position goes back to the start, as the rest may hold a line already.
  | some (line, rest) => (ofUnseen rest, .line (i.seen.reverseAux line))
  | none =>
      let i := i.look
      (i, if capacity ≤ i.scanned then .full else .more)

def push (piece : Bytes) (i : Inbox) : Inbox :=
  { i with unseen := i.unseen ++ piece }

/-- The bytes that were looked at come before the others. -/
theorem bytes_eq (i : Inbox) : i.bytes = i.seen.reverse ++ i.unseen :=
  List.reverseAux_eq

@[simp] theorem bytes_empty : empty.bytes = [] := rfl

@[simp] theorem bytes_ofUnseen (bs : Bytes) : (ofUnseen bs).bytes = bs := rfl

@[simp] theorem bytes_push (piece : Bytes) (i : Inbox) :
    (i.push piece).bytes = i.bytes ++ piece := by
  simp [push, bytes_eq]

@[simp] theorem scanned_push (piece : Bytes) (i : Inbox) : (i.push piece).scanned = i.scanned :=
  rfl

/-- Looking at bytes changes none of them. -/
@[simp] theorem bytes_look (i : Inbox) : i.look.bytes = i.bytes := by
  simp [look, bytes_eq, List.reverseAux_eq]

/-- Looking leaves nothing that was not looked at. -/
theorem scanned_look (i : Inbox) : i.look.scanned = i.bytes.length := by
  simp [look, bytes_eq, i.length_seen]

theorem seen_look (i : Inbox) : i.look.seen = i.unseen.reverse ++ i.seen :=
  List.reverseAux_eq

/-- The first bytes are those that were looked at. -/
theorem take_scanned (i : Inbox) : i.bytes.take i.scanned = i.seen.reverse := by
  simp [bytes_eq, ← i.length_seen]

/-- The bytes behind them are those that were not. -/
theorem drop_scanned (i : Inbox) : i.bytes.drop i.scanned = i.unseen := by
  simp [bytes_eq, ← i.length_seen]

end Inbox
end LineExchange
