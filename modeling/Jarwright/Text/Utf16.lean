/-!
# UTF-16 code units

* `units` spells characters as code units, two for a character above U+FFFF;
* `ofUnits?` reads them back and refuses a surrogate that is not part of a pair.
-/

namespace Jarwright.Text

/-- The code units of one character. -/
def charUnits (c : Char) : List Nat :=
  let n := c.toNat
  if n < 0x10000 then [n]
  else [0xd800 + (n - 0x10000) / 0x400, 0xdc00 + (n - 0x10000) % 0x400]

/-- The code units of a text. -/
def units (cs : List Char) : List Nat := cs.flatMap charUnits

/-- Reads code units; `done` holds the characters read so far, latest first. -/
def ofUnitsFrom (done : List Char) : List Nat → Option (List Char)
  | [] => some done.reverse
  | u :: rest =>
    if u < 0xd800 ∨ 0xe000 ≤ u then ofUnitsFrom (Char.ofNat u :: done) rest
    else if u < 0xdc00 then
      match rest with
      | v :: rest =>
        if 0xdc00 ≤ v ∧ v < 0xe000 then
          ofUnitsFrom (Char.ofNat (0x10000 + (u - 0xd800) * 0x400 + (v - 0xdc00)) :: done) rest
        else none
      | [] => none
    else none

/-- The text that code units spell, if every surrogate is paired. -/
def ofUnits? (us : List Nat) : Option (List Char) := ofUnitsFrom [] us

end Jarwright.Text
