import LineExchange.Channel.Wire
import LineExchange.Net.Address.Kind

/-!
# Host — what the network of a machine answers

A program asks its machine to connect to endpoints and to listen on them.  This file defines:

* `Host` — a machine's answers;
* `Host.isolated` — a machine whose network is down, so that no destination can be reached, itself
  included;
* `Host.holding` — a machine on which endpoints are taken.

A machine whose network is down has no address.  It can be asked to listen on every address of
four octets all the same, and of the others on the unspecified one and on those that map four
octets.  A connection fails because no route leads to its destination, or, where the destination
has eight groups and stands for one host, because there is no address to set out from.
-/

namespace LineExchange

/-- A machine's network. -/
structure Host where
  /-- What comes of connecting: a stream, or an error at once. -/
  dial : Endpoint → Except IoError Wire
  /-- What comes of listening. -/
  listen : Endpoint → Except IoError Endpoint

namespace Host

/-- The scope of the only link that a machine has whose network is down: that to itself. -/
def ownScope : UInt32 := 1

/-- Why a machine whose network is down does not connect to an endpoint. -/
def dialError : Endpoint → Int
  | .v4 .. => SystemError.networkUnreachable
  | .v6 ip scope _ =>
      match ip.kind with
      | .maps _ | .multicast => SystemError.networkUnreachable
      | .linkLocal =>
          if scope = 0 then SystemError.invalidArgument else SystemError.addressNotAvailable
      | .unspecified | .single => SystemError.addressNotAvailable

/-- Why a machine whose network is down does not listen on an endpoint, if it does not. -/
def listenError? : Endpoint → Option Int
  | .v4 .. => none
  | .v6 ip scope _ =>
      match ip.kind with
      | .unspecified | .maps _ => none
      | .multicast => some SystemError.invalidArgument
      | .linkLocal =>
          if scope = 0 then some SystemError.invalidArgument
          else if scope = ownScope then some SystemError.addressNotAvailable
          else some SystemError.noSuchDevice
      | .single => some SystemError.addressNotAvailable

/-- An endpoint without its scope. -/
def unscoped : Endpoint → Endpoint
  | .v4 ip port => .v4 ip port
  | .v6 ip _ port => .v6 ip 0 port

/-- A machine whose network is down.  What it listens on needs no scope. -/
def isolated : Host where
  dial e := .error (.system (dialError e))
  listen e :=
    match listenError? e with
    | some code => .error (.system code)
    | none => .ok (unscoped e)

/-- The machine when the endpoints `taken` have listeners. -/
def holding (taken : List Endpoint) (h : Host) : Host where
  dial := h.dial
  listen e :=
    match h.listen e with
    | .error e => .error e
    | .ok bound =>
        if taken.any e.clashes then .error (.system SystemError.addressInUse) else .ok bound

end Host
end LineExchange
