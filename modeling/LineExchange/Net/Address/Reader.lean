import LineExchange.Net.Address
import LineExchange.Text.Numeral

/-!
# Address reader — the addresses that a text denotes

Each reader takes as much of a text as it can use and returns the rest.  This file defines:

* `NumberForm`, `number?` — a run of digits under limits on its length, zeros and value;
* `ip4?`, `ip6?`, `groups` — addresses at the start of a text;
* `IpAddr.ofText?`, `Endpoint.ofText?` — the address that a whole text denotes.

An address of the newer kind is a list of up to eight groups of at most four hexadecimal digits,
in which `::` stands for one or more zero groups and the last two groups may be written as an
address of the older kind.
-/

namespace LineExchange
namespace Net

/-- How a number has to be written. -/
structure NumberForm where
  base : Nat
  /-- The greatest number of digits, if there is one. -/
  maxDigits : Option Nat
  /-- Whether a number of several digits may begin with zero. -/
  leadingZeros : Bool
  bound : Nat

def NumberForm.octet : NumberForm := ⟨10, some 3, false, 256⟩

def NumberForm.group : NumberForm := ⟨16, some 4, true, 65536⟩

def NumberForm.port : NumberForm := ⟨10, none, true, 65536⟩

def NumberForm.scope : NumberForm := ⟨10, none, true, 4294967296⟩

/-- Whether the digits `ds` are written as the form asks. -/
def NumberForm.allows (form : NumberForm) (ds : List Char) : Bool :=
  (form.maxDigits.all fun m => ds.length ≤ m)
    && (form.leadingZeros || ds.length ≤ 1 || ds.head? != some '0')

/-- The number that the digits at the start of a text denote. -/
def number? (form : NumberForm) (cs : List Char) : Option (Nat × List Char) :=
  let digits := cs.takeWhile (Numeral.isDigit form.base)
  if form.allows digits then
    match Numeral.below? form.base form.bound digits with
    | some n => some (n, cs.dropWhile (Numeral.isDigit form.base))
    | none => none
  else none

def after? (c : Char) : List Char → Option (List Char)
  | x :: cs => if x = c then some cs else none
  | [] => none

/-- The address of the older kind at the start of a text. -/
def ip4? (cs : List Char) : Option (Ip4 × List Char) := do
  let (a, cs) ← number? .octet cs
  let (b, cs) ← number? .octet (← after? '.' cs)
  let (c, cs) ← number? .octet (← after? '.' cs)
  let (d, cs) ← number? .octet (← after? '.' cs)
  return (⟨.ofNat a, .ofNat b, .ofNat c, .ofNat d⟩, cs)

/-- The two groups that an address of the older kind stands for. -/
def groupsOfIp4 (ip : Ip4) : List UInt16 :=
  [ip.a.toUInt16 <<< 8 ||| ip.b.toUInt16, ip.c.toUInt16 <<< 8 ||| ip.d.toUInt16]

/-- The text of the next group: after a colon, unless the group is the first. -/
def groupStart? (isFirst : Bool) (cs : List Char) : Option (List Char) :=
  if isFirst then some cs else after? ':' cs

/-- The groups at the start of a text, at most `room` of them, whether they end in an address of
the older kind, and the rest. -/
def groups (isFirst : Bool) : (room : Nat) → List Char → List UInt16 × Bool × List Char
  | 0, cs => ([], false, cs)
  | room + 1, cs =>
      match if 1 ≤ room then groupStart? isFirst cs >>= ip4? else none with
      | some (ip, rest) => (groupsOfIp4 ip, true, rest)
      | none =>
          match groupStart? isFirst cs >>= number? .group with
          | some (g, rest) =>
              let (gs, endsInIp4, rest) := groups false room rest
              (UInt16.ofNat g :: gs, endsInIp4, rest)
          | none => ([], false, cs)

/-- The address of the newer kind at the start of a text. -/
def ip6? (cs : List Char) : Option (Ip6 × List Char) :=
  let (front, endsInIp4, cs) := groups true 8 cs
  if front.length = 8 then some (Ip6.ofGroups front, cs)
  else if endsInIp4 then none
  else do
    let cs ← after? ':' (← after? ':' cs)
    let (back, _, cs) := groups true (7 - front.length) cs
    let gap := List.replicate (8 - front.length - back.length) 0
    return (Ip6.ofGroups (front ++ gap ++ back), cs)

/-- The scope at the start of a text; zero when there is none. -/
def scope (cs : List Char) : Nat × List Char :=
  match after? '%' cs >>= number? .scope with
  | some (n, rest) => (n, rest)
  | none => (0, cs)

/-- The value that was read, if nothing is left. -/
def whole? {α : Type} : Option (α × List Char) → Option α
  | some (x, []) => some x
  | _ => none

/-- The endpoint with an address of the older kind at the start of a text. -/
def endpoint4? (cs : List Char) : Option (Endpoint × List Char) := do
  let (ip, cs) ← ip4? cs
  let (p, cs) ← number? .port (← after? ':' cs)
  return (.v4 ip (.ofNat p), cs)

/-- The endpoint with an address of the newer kind at the start of a text. -/
def endpoint6? (cs : List Char) : Option (Endpoint × List Char) := do
  let (ip, cs) ← ip6? (← after? '[' cs)
  let (s, cs) := scope cs
  let (p, cs) ← number? .port (← after? ':' (← after? ']' cs))
  return (.v6 ip (.ofNat s) (.ofNat p), cs)

end Net

open Net

def IpAddr.ofText? (s : String) : Option IpAddr :=
  (whole? (ip4? s.toList)).map .v4 <|> (whole? (ip6? s.toList)).map .v6

def Endpoint.ofText? (s : String) : Option Endpoint :=
  whole? (endpoint4? s.toList) <|> whole? (endpoint6? s.toList)

end LineExchange
