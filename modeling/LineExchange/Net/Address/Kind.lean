import LineExchange.Net.Address

/-!
# Kind — what an address stands for

This file defines:

* `Ip6.Kind`, `Ip6.kind` — the kinds of addresses of eight groups;
* `Endpoint.older?`, `Endpoint.isEverywhere` — the address of four octets that an endpoint has or
  maps, and whether it stands for every address of a host;
* `Endpoint.overlaps`, `Endpoint.clashes` — which endpoints cannot both have a listener.

An unspecified address of four octets stands for every address of four octets; one of eight
groups stands for every address of a host, of both sizes.  A port of zero asks for a free one, so
it clashes with none.
-/

namespace LineExchange

namespace Ip6

/-- What an address of eight groups stands for. -/
inductive Kind where
  /-- Every address of a host. -/
  | unspecified
  /-- An address of four octets. -/
  | maps (ip : Ip4)
  | multicast
  /-- A host on the link that the scope names. -/
  | linkLocal
  | single
  deriving DecidableEq, Repr

/-- The kind of an address that neither is unspecified nor maps another, by its first group. -/
def kindOfGroup (g : UInt16) : Kind :=
  if g &&& 0xFF00 = 0xFF00 then .multicast
  else if g &&& 0xFFC0 = 0xFE80 then .linkLocal
  else .single

def kind (ip : Ip6) : Kind :=
  if ip = .unspecified then .unspecified
  else
    match ip.mapped?, ip.groups with
    | some ip4, _ => .maps ip4
    | none, g :: _ => kindOfGroup g
    | none, [] => .single

@[simp] theorem kind_unspecified : unspecified.kind = .unspecified := rfl

end Ip6

namespace Endpoint

def ip : Endpoint → IpAddr
  | .v4 ip _ => .v4 ip
  | .v6 ip _ _ => .v6 ip

/-- The address of four octets that an endpoint has or maps. -/
def older? : Endpoint → Option Ip4
  | .v4 ip _ => some ip
  | .v6 ip _ _ => ip.mapped?

/-- Whether an endpoint stands for every address of a host. -/
def isEverywhere : Endpoint → Bool
  | .v4 .. => false
  | .v6 ip _ _ => ip == .unspecified

/-- Whether two addresses of four octets can be those of one connection. -/
def overlaps4 (a b : Ip4) : Bool :=
  a == b || a == .unspecified || b == .unspecified

/-- Whether a host's address can belong to both endpoints. -/
def overlaps (e f : Endpoint) : Bool :=
  if e.isEverywhere || f.isEverywhere then true
  else
    match e.older?, f.older? with
    | some a, some b => overlaps4 a b
    | none, none => e.ip == f.ip
    | _, _ => false

/-- Whether two endpoints cannot both have a listener. -/
def clashes (e f : Endpoint) : Bool :=
  e.port != 0 && e.port == f.port && e.overlaps f

end Endpoint
end LineExchange
