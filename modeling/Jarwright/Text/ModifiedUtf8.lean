import Jarwright.Bytes
import Jarwright.Text.Utf16

/-!
# Modified UTF-8

The encoding of text constants: each UTF-16 code unit is written on its own on one to three bytes,
and the unit zero on two, so that no zero byte occurs.

* `encode` writes a text;
* `decodeUnits?` reads bytes unit by unit and also takes forms longer than needed;
* `decode?` is the reader, which copies bytes that are all plain ASCII.
-/

namespace Jarwright.Text.ModifiedUtf8

/-- The bytes of one code unit. -/
def encodeUnit (u : Nat) : Bytes :=
  if 1 ≤ u ∧ u < 0x80 then [UInt8.ofNat u]
  else if u < 0x800 then [UInt8.ofNat (0xc0 + u / 0x40), UInt8.ofNat (0x80 + u % 0x40)]
  else [UInt8.ofNat (0xe0 + u / 0x1000), UInt8.ofNat (0x80 + u / 0x40 % 0x40),
    UInt8.ofNat (0x80 + u % 0x40)]

/-- The bytes of a text. -/
def encode (cs : List Char) : Bytes := (units cs).flatMap encodeUnit

/-- Whether a byte can follow the first byte of a longer form. -/
def isContinuation (b : UInt8) : Bool := 0x80 ≤ b.toNat && b.toNat < 0xc0

/-- Reads units; `done` holds the units read so far, latest first. A form may be longer than its
unit needs, but neither a zero byte nor a first byte from `0xf0` on is accepted. -/
def decodeUnitsFrom (done : List Nat) : Bytes → Option (List Nat)
  | [] => some done.reverse
  | b₀ :: rest =>
    let n := b₀.toNat
    if n = 0 then none
    else if n < 0x80 then decodeUnitsFrom (n :: done) rest
    else if 0xc0 ≤ n ∧ n < 0xe0 then
      match rest with
      | b₁ :: rest =>
        if isContinuation b₁ then
          decodeUnitsFrom (((n - 0xc0) * 0x40 + (b₁.toNat - 0x80)) :: done) rest
        else none
      | [] => none
    else if 0xe0 ≤ n ∧ n < 0xf0 then
      match rest with
      | b₁ :: b₂ :: rest =>
        if isContinuation b₁ && isContinuation b₂ then
          decodeUnitsFrom
            (((n - 0xe0) * 0x1000 + (b₁.toNat - 0x80) * 0x40 + (b₂.toNat - 0x80)) :: done) rest
        else none
      | _ => none
    else none

/-- The code units that bytes spell. -/
def decodeUnits? (bs : Bytes) : Option (List Nat) := decodeUnitsFrom [] bs

/-- The text that bytes spell, unit by unit. -/
def decodeGeneral? (bs : Bytes) : Option (List Char) := decodeUnits? bs >>= ofUnits?

/-- Whether every byte is an ASCII character other than zero. -/
def isPlain (bs : Bytes) : Bool := bs.all fun b => b ≠ 0 && b.toNat < 0x80

/-- The text that bytes spell; plain bytes are copied. -/
def decode? (bs : Bytes) : Option (List Char) :=
  if isPlain bs then some (bs.map fun b => Char.ofNat b.toNat) else decodeGeneral? bs

end Jarwright.Text.ModifiedUtf8
