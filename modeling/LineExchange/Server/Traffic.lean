/-!
# Traffic — what a server counts

This file defines `Traffic`, six counters of 64 bits that wrap around, and what moves them.
-/

namespace LineExchange

/-- What a server counts. -/
structure Traffic where
  accepted : UInt64
  active : UInt64
  /-- The requests that were answered. -/
  processed : UInt64
  /-- The bytes of the requests that were read. -/
  bytesRead : UInt64
  /-- The bytes of the responses that were written. -/
  bytesWritten : UInt64
  acceptErrors : UInt64
  deriving DecidableEq, Repr

namespace Traffic

def zero : Traffic :=
  ⟨0, 0, 0, 0, 0, 0⟩

def opened (t : Traffic) : Traffic :=
  { t with accepted := t.accepted + 1, active := t.active + 1 }

def closed (t : Traffic) : Traffic :=
  { t with active := t.active - 1 }

def answered (t : Traffic) : Traffic :=
  { t with processed := t.processed + 1 }

def read (n : UInt64) (t : Traffic) : Traffic :=
  { t with bytesRead := t.bytesRead + n }

def wrote (n : UInt64) (t : Traffic) : Traffic :=
  { t with bytesWritten := t.bytesWritten + n }

def acceptFailed (t : Traffic) : Traffic :=
  { t with acceptErrors := t.acceptErrors + 1 }

end Traffic
end LineExchange
