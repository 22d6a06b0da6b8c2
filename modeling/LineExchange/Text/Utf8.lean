/-!
# Utf8 — bytes, characters, and where a byte string stops being text

A byte string is text when it is the encoding of a list of characters.  This file defines:

* `Bytes` — byte strings;
* `Utf8.encode` — the bytes of a list of characters;
* `Utf8.head` — how a byte string begins: with an encoded character, with bytes that begin no
  encoding, or inside an encoding that it does not finish;
* `Utf8.decode` — the characters, or the place and the width of the first fault;
* `Utf8.decodeLossy` — the characters with one replacement character for each fault.

The width of a fault counts the longest run of bytes there that begins some encoding, and is at
least one; an encoding that the end of the string cuts off has no width.
-/

namespace LineExchange

abbrev Bytes := List UInt8

namespace Utf8

/-! ## Encoding -/

def encode (cs : List Char) : Bytes :=
  cs.flatMap String.utf8EncodeChar

@[simp] theorem encode_nil : encode [] = [] := rfl

@[simp] theorem encode_cons (c : Char) (cs : List Char) :
    encode (c :: cs) = String.utf8EncodeChar c ++ encode cs := by
  simp [encode]

@[simp] theorem encode_append (cs ds : List Char) :
    encode (cs ++ ds) = encode cs ++ encode ds := by
  simp [encode]

def ofString (s : String) : Bytes :=
  encode s.toList

/-! ## The first encoding of a byte string -/

/-- How many bytes an encoding takes whose first byte is `a`; zero when no encoding begins so. -/
def width (a : UInt8) : Nat :=
  if a < 0x80 then 1
  else if a < 0xC2 then 0
  else if a < 0xE0 then 2
  else if a < 0xF0 then 3
  else if a < 0xF5 then 4
  else 0

/-- A byte that continues an encoding. -/
def isTail (b : UInt8) : Bool :=
  0x80 ≤ b && b < 0xC0

/-- Whether `b` may follow the first byte `a` of an encoding of three or four bytes.  The bounds
keep out overlong encodings, surrogates, and numbers above the last code point. -/
def admits (a b : UInt8) : Bool :=
  isTail b
    && (a != 0xE0 || 0xA0 ≤ b)
    && (a != 0xED || b < 0xA0)
    && (a != 0xF0 || 0x90 ≤ b)
    && (a != 0xF4 || b < 0x90)

/-- The payload bits of a byte that continues an encoding. -/
def tailBits (b : UInt8) : Nat :=
  b.toNat % 64

/-- How a byte string begins. -/
inductive Head where
  | nothing
  /-- An encoded character comes first. -/
  | scalar (c : Char) (rest : Bytes)
  /-- The first `width` bytes cannot be continued to an encoding. -/
  | broken (width : Nat) (rest : Bytes)
  /-- The string ends inside its first encoding. -/
  | cut
  deriving DecidableEq, Repr

/-- The first character of a byte string, or the fault in its place. -/
def head : Bytes → Head
  | [] => .nothing
  | a :: r =>
      match width a with
      | 0 => .broken 1 r
      | 1 => .scalar (Char.ofNat a.toNat) r
      | 2 =>
          match r with
          | [] => .cut
          | b :: r' =>
              if isTail b then .scalar (Char.ofNat (a.toNat % 32 * 64 + tailBits b)) r'
              else .broken 1 r
      | 3 =>
          match r with
          | [] => .cut
          | b :: r' =>
              if admits a b then
                match r' with
                | [] => .cut
                | c :: r'' =>
                    if isTail c then
                      .scalar
                        (Char.ofNat (a.toNat % 16 * 4096 + tailBits b * 64 + tailBits c)) r''
                    else .broken 2 r'
              else .broken 1 r
      | _ =>
          match r with
          | [] => .cut
          | b :: r' =>
              if admits a b then
                match r' with
                | [] => .cut
                | c :: r'' =>
                    if isTail c then
                      match r'' with
                      | [] => .cut
                      | d :: r''' =>
                          if isTail d then
                            .scalar
                              (Char.ofNat
                                (a.toNat % 8 * 262144 + tailBits b * 4096
                                  + tailBits c * 64 + tailBits d)) r'''
                          else .broken 3 r''
                    else .broken 2 r'
              else .broken 1 r

/-- What follows the first character is shorter than the whole. -/
theorem length_lt_of_head_scalar {bs rest : Bytes} {c : Char} (h : head bs = .scalar c rest) :
    rest.length < bs.length := by
  unfold head at h
  repeat' split at h
  all_goals cases h
  all_goals simp only [List.length_cons]; omega

/-- What follows a fault is shorter than the whole. -/
theorem length_lt_of_head_broken {bs rest : Bytes} {n : Nat} (h : head bs = .broken n rest) :
    rest.length < bs.length := by
  unfold head at h
  repeat' split at h
  all_goals cases h
  all_goals simp only [List.length_cons]; omega

/-! ## Decoding -/

/-- The first fault of a byte string: where it stands and how many bytes it takes; no width when
the end of the string cuts an encoding off. -/
structure Fault where
  index : Nat
  width : Option Nat
  deriving DecidableEq, Repr

namespace Fault

def message (f : Fault) : String :=
  match f.width with
  | some n => s!"invalid utf-8 sequence of {n} bytes from index {f.index}"
  | none => s!"incomplete utf-8 byte sequence from index {f.index}"

end Fault

/-- Decodes `bs`, which stands at `index` of the whole, after the characters `done`, last first. -/
def decodeFrom (index : Nat) (done : List Char) (bs : Bytes) : Except Fault (List Char) :=
  match _h : head bs with
  | .nothing => .ok done.reverse
  | .scalar c rest => decodeFrom (index + c.utf8Size) (c :: done) rest
  | .broken n _ => .error ⟨index, some n⟩
  | .cut => .error ⟨index, none⟩
termination_by bs.length
decreasing_by exact length_lt_of_head_scalar _h

/-- The characters that `bs` encodes, or its first fault. -/
def decode (bs : Bytes) : Except Fault (List Char) :=
  decodeFrom 0 [] bs

/-- The character that stands for a fault. -/
def replacement : Char := '\uFFFD'

/-- Decodes `bs` after the characters `done`, last first, with a replacement for each fault. -/
def decodeLossyFrom (done : List Char) (bs : Bytes) : List Char :=
  match _h : head bs with
  | .nothing => done.reverse
  | .scalar c rest => decodeLossyFrom (c :: done) rest
  | .broken _ rest => decodeLossyFrom (replacement :: done) rest
  | .cut => (replacement :: done).reverse
termination_by bs.length
decreasing_by
  · exact length_lt_of_head_scalar _h
  · exact length_lt_of_head_broken _h

/-- The characters of `bs`, with one replacement character for each fault. -/
def decodeLossy (bs : Bytes) : List Char :=
  decodeLossyFrom [] bs

end Utf8
end LineExchange
