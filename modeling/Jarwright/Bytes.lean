/-!
# Byte strings

Byte strings are lists of bytes, so that a reader is a function on what is still to be read and a
writer is concatenation.

* `bigEndian w n` writes `n` on `w` bytes, most significant first, dropping what does not fit;
* `ofBigEndian` reads such a string back, whatever its width;
* `splitExact n bs` cuts off the first `n` bytes, and fails when there are fewer;
* `toHex` and `ofHex?` are the two directions of the lower-case hexadecimal form.
-/

namespace Jarwright

/-- A string of bytes. -/
abbrev Bytes := List UInt8

namespace Bytes

/-! ## Fixed-width numbers -/

/-- The lowest `width` bytes of `n`, most significant first. -/
def bigEndian : Nat → Nat → Bytes
  | 0, _ => []
  | width + 1, n => bigEndian width (n / 256) ++ [UInt8.ofNat n]

/-- The number that a byte string spells, most significant byte first. -/
def ofBigEndian (bs : Bytes) : Nat :=
  bs.foldl (fun n b => n * 256 + b.toNat) 0

/-- The first `n` bytes and what follows them, if there are that many. -/
def splitExact (n : Nat) (bs : Bytes) : Option (Bytes × Bytes) :=
  let front := bs.take n
  if front.length = n then some (front, bs.drop n) else none

@[simp] theorem length_bigEndian (width n : Nat) : (bigEndian width n).length = width := by
  induction width generalizing n with
  | zero => rfl
  | succ width ih => simp [bigEndian, ih]

theorem ofBigEndian_append_singleton (bs : Bytes) (b : UInt8) :
    ofBigEndian (bs ++ [b]) = ofBigEndian bs * 256 + b.toNat := by
  simp [ofBigEndian]

/-- Reading back gives the number up to the width it was written on. -/
theorem ofBigEndian_bigEndian (width n : Nat) :
    ofBigEndian (bigEndian width n) = n % Nat.pow 256 width := by
  induction width generalizing n with
  | zero => exact (Nat.mod_one n).symm
  | succ width ih =>
    have hpow : Nat.pow 256 (width + 1) = 256 * Nat.pow 256 width := Nat.mul_comm _ _
    rw [bigEndian, ofBigEndian_append_singleton, ih, hpow, UInt8.toNat_ofNat', Nat.mod_mul]
    omega

theorem splitExact_append (front rest : Bytes) :
    splitExact front.length (front ++ rest) = some (front, rest) := by
  simp [splitExact]

theorem eq_append_of_splitExact {n : Nat} {bs front rest : Bytes}
    (h : splitExact n bs = some (front, rest)) : bs = front ++ rest ∧ front.length = n := by
  unfold splitExact at h
  dsimp only at h
  split at h
  · rename_i hn
    obtain ⟨rfl, rfl⟩ := Prod.mk.injEq .. ▸ Option.some.injEq .. ▸ h
    exact ⟨(List.take_append_drop n bs).symm, hn⟩
  · cases h

/-! ## Hexadecimal form -/

/-- The lower-case digit for a value below sixteen. -/
def hexDigit (n : Nat) : Char :=
  if n < 10 then Char.ofNat (48 + n) else Char.ofNat (87 + n)

/-- The value of a hexadecimal digit, in either case. -/
def hexValue? (c : Char) : Option Nat :=
  if '0' ≤ c ∧ c ≤ '9' then some (c.toNat - 48)
  else if 'a' ≤ c ∧ c ≤ 'f' then some (c.toNat - 87)
  else if 'A' ≤ c ∧ c ≤ 'F' then some (c.toNat - 55)
  else none

/-- Two lower-case digits per byte. -/
def toHex (bs : Bytes) : String :=
  String.ofList (bs.flatMap fun b => [hexDigit (b.toNat / 16), hexDigit (b.toNat % 16)])

/-- Reads pairs of digits; fails on anything else. -/
def ofHexDigits? : List Char → Option Bytes
  | [] => some []
  | [_] => none
  | a :: b :: rest => do
    let hi ← hexValue? a
    let lo ← hexValue? b
    let bs ← ofHexDigits? rest
    pure (UInt8.ofNat (hi * 16 + lo) :: bs)

/-- The bytes that a hexadecimal text spells. -/
def ofHex? (s : String) : Option Bytes := ofHexDigits? s.toList

end Bytes

end Jarwright
