import Jarwright.Bytes

/-!
# UTF-8

* `encode` writes a text;
* `scan` reads bytes as a list of characters and malformed stretches, where a malformed stretch is
  the longest beginning of a form that no further byte could have completed;
* `decode?` accepts well-formed bytes only, and `decodeLossy` shows each malformed stretch as one
  replacement character.
-/

namespace Jarwright.Text.Utf8

/-- The bytes of a text. -/
def encode (cs : List Char) : Bytes := cs.flatMap String.utf8EncodeChar

/-- The bytes of a string. -/
def ofString (s : String) : Bytes := encode s.toList

/-- The number of bytes that a text takes. -/
def length (cs : List Char) : Nat := cs.foldl (fun n c => n + c.utf8Size) 0

/-- Whether a byte lies in a range. -/
def within (lo hi : Nat) (b : UInt8) : Bool := lo ≤ b.toNat && b.toNat ≤ hi

/-- Whether a byte can stand after the second place of a form. -/
def isTail (b : UInt8) : Bool := within 0x80 0xbf b

/-- Whether `b₁` can follow the first byte `b₀` of a form of two to four bytes: the ranges leave
out overlong forms, surrogates and numbers above U+10FFFF. -/
def isSecond (b₀ b₁ : UInt8) : Bool :=
  if b₀ = 0xe0 then within 0xa0 0xbf b₁
  else if b₀ = 0xed then within 0x80 0x9f b₁
  else if b₀ = 0xf0 then within 0x90 0xbf b₁
  else if b₀ = 0xf4 then within 0x80 0x8f b₁
  else isTail b₁

/-- The low six bits of a byte after the first. -/
def payload (b : UInt8) : Nat := b.toNat % 0x40

/-- The characters of a byte string, `none` for each malformed stretch. -/
def scan : Bytes → List (Option Char)
  | [] => []
  | b₀ :: rest =>
    let n := b₀.toNat
    if n < 0x80 then some (Char.ofNat n) :: scan rest
    else if n < 0xc2 ∨ 0xf4 < n then none :: scan rest
    else match rest with
      | [] => [none]
      | b₁ :: rest₁ =>
        if !isSecond b₀ b₁ then none :: scan (b₁ :: rest₁)
        else if n < 0xe0 then some (Char.ofNat ((n - 0xc0) * 0x40 + payload b₁)) :: scan rest₁
        else match rest₁ with
          | [] => [none]
          | b₂ :: rest₂ =>
            if !isTail b₂ then none :: scan (b₂ :: rest₂)
            else if n < 0xf0 then
              some (Char.ofNat ((n - 0xe0) * 0x1000 + payload b₁ * 0x40 + payload b₂)) :: scan rest₂
            else match rest₂ with
              | [] => [none]
              | b₃ :: rest₃ =>
                if !isTail b₃ then none :: scan (b₃ :: rest₃)
                else some (Char.ofNat ((n - 0xf0) * 0x40000 + payload b₁ * 0x1000
                  + payload b₂ * 0x40 + payload b₃)) :: scan rest₃

/-- The text that well-formed bytes spell. -/
def decode? (bs : Bytes) : Option (List Char) := (scan bs).mapM id

/-- The text that bytes spell, with a replacement character for each malformed stretch. -/
def decodeLossy (bs : Bytes) : List Char := (scan bs).map (·.getD '\ufffd')

end Jarwright.Text.Utf8
