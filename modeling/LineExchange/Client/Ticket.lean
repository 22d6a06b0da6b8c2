import LineExchange.Cancel.Latch
import LineExchange.Net.Address
import LineExchange.Text.Utf8

/-!
# Ticket — one request under way

A ticket names a request, says where it goes and what is sent, and records whether it was
cancelled: once in a flag that the request's own steps look at, and once in the latch that its
channel watches.  This file defines `Ticket` and `Ticket.cancel`.
-/

namespace LineExchange

/-- One request under way. -/
structure Ticket where
  /-- The caller's name for the request. -/
  id : UInt32
  endpoint : Endpoint
  /-- What is sent, delimiter included. -/
  payload : Bytes
  cancelled : Bool
  latch : Latch
  deriving DecidableEq, Repr

namespace Ticket

/-- A ticket that was not cancelled. -/
def issue (id : UInt32) (endpoint : Endpoint) (payload : Bytes) : Ticket :=
  ⟨id, endpoint, payload, false, .fresh⟩

/-- The request is cancelled: the flag is set and the latch is raised. -/
def cancel (t : Ticket) : Ticket :=
  { t with cancelled := true, latch := t.latch.raise }

@[simp] theorem cancelled_cancel (t : Ticket) : t.cancel.cancelled = true := rfl

@[simp] theorem raised_cancel (t : Ticket) : t.cancel.latch.raised = true := rfl

@[simp] theorem id_cancel (t : Ticket) : t.cancel.id = t.id := rfl

/-- The flag and the latch tell the same. -/
def IsSound (t : Ticket) : Prop :=
  t.latch.raised = t.cancelled

theorem isSound_issue (id : UInt32) (endpoint : Endpoint) (payload : Bytes) :
    (issue id endpoint payload).IsSound := rfl

theorem isSound_cancel (t : Ticket) : t.cancel.IsSound := rfl

end Ticket
end LineExchange
