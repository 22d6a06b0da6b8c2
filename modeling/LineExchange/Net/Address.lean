/-!
# Address — internet addresses and how they are written

This file defines:

* `Ip4`, `Ip6`, `IpAddr` — addresses of hosts;
* `Endpoint` — a host's address with a port;
* `Ip6.zeroRun` — the run of zero groups that the written form leaves out;
* `IpAddr.text`, `Endpoint.text` — the written forms.

An address of the newer kind is written in lower-case hexadecimal groups.  The longest run of at
least two zero groups, the first of several, is written `::`; an address that maps one of the
older kind ends in that kind's form.
-/

namespace LineExchange

structure Ip4 where
  a : UInt8
  b : UInt8
  c : UInt8
  d : UInt8
  deriving DecidableEq, Repr

namespace Ip4

def text (ip : Ip4) : String :=
  ".".intercalate ([ip.a, ip.b, ip.c, ip.d].map fun o => toString o.toNat)

def loopback : Ip4 :=
  ⟨127, 0, 0, 1⟩

def unspecified : Ip4 :=
  ⟨0, 0, 0, 0⟩

end Ip4

/-- An address of eight groups of sixteen bits. -/
structure Ip6 where
  groups : List UInt16
  length_groups : groups.length = 8 := by decide
  deriving DecidableEq, Repr

namespace Ip6

/-- The first eight of the groups `gs`, filled up with zero groups. -/
def ofGroups (gs : List UInt16) : Ip6 where
  groups := (gs ++ List.replicate 8 0).take 8
  length_groups := by simp

def unspecified : Ip6 :=
  ofGroups []

structure Run where
  start : Nat
  length : Nat
  deriving DecidableEq, Repr

/-- The longest run of zero groups, the first of several, when the groups that are left stand at
`position`, `current` is the run that ends there and `best` the longest run before it. -/
def zeroRunFrom (position : Nat) (current best : Run) : List UInt16 → Run
  | [] => best
  | g :: gs =>
      if g = 0 then
        let current : Run :=
          if current.length = 0 then ⟨position, 1⟩ else ⟨current.start, current.length + 1⟩
        zeroRunFrom (position + 1) current
          (if best.length < current.length then current else best) gs
      else zeroRunFrom (position + 1) ⟨0, 0⟩ best gs

/-- The longest run of zero groups, the first of several. -/
def zeroRun (ip : Ip6) : Run :=
  zeroRunFrom 0 ⟨0, 0⟩ ⟨0, 0⟩ ip.groups

/-- A group in lower-case hexadecimal, without leading zeros. -/
def groupText (g : UInt16) : String :=
  String.ofList (Nat.toDigits 16 g.toNat)

/-- Groups with colons between them. -/
def groupsText (gs : List UInt16) : String :=
  ":".intercalate (gs.map groupText)

/-- The address of the older kind that this one maps. -/
def mapped? (ip : Ip6) : Option Ip4 :=
  match ip.groups with
  | [0, 0, 0, 0, 0, 0xFFFF, x, y] =>
      some ⟨(x >>> 8).toUInt8, x.toUInt8, (y >>> 8).toUInt8, y.toUInt8⟩
  | _ => none

def text (ip : Ip6) : String :=
  match ip.mapped? with
  | some ip4 => "::ffff:" ++ ip4.text
  | none =>
      let run := ip.zeroRun
      if 1 < run.length then
        groupsText (ip.groups.take run.start) ++ "::"
          ++ groupsText (ip.groups.drop (run.start + run.length))
      else groupsText ip.groups

end Ip6

inductive IpAddr where
  | v4 (ip : Ip4)
  | v6 (ip : Ip6)
  deriving DecidableEq, Repr

namespace IpAddr

def text : IpAddr → String
  | .v4 ip => ip.text
  | .v6 ip => ip.text

end IpAddr

/-- A port of a host.  An address of the newer kind may name a scope, which is zero for none. -/
inductive Endpoint where
  | v4 (ip : Ip4) (port : UInt16)
  | v6 (ip : Ip6) (scope : UInt32) (port : UInt16)
  deriving DecidableEq, Repr

namespace Endpoint

def ofIp (ip : IpAddr) (port : UInt16) : Endpoint :=
  match ip with
  | .v4 ip => .v4 ip port
  | .v6 ip => .v6 ip 0 port

def isV6 : Endpoint → Bool
  | .v4 .. => false
  | .v6 .. => true

def port : Endpoint → UInt16
  | .v4 _ p => p
  | .v6 _ _ p => p

/-- The written form of the host, as it stands before the port. -/
def hostText : Endpoint → String
  | .v4 ip _ => ip.text
  | .v6 ip scope _ =>
      if scope = 0 then "[" ++ ip.text ++ "]"
      else "[" ++ ip.text ++ "%" ++ toString scope.toNat ++ "]"

def text (e : Endpoint) : String :=
  e.hostText ++ ":" ++ toString e.port.toNat

end Endpoint

end LineExchange
