/-!
# Reading unsigned numbers

A number is written in ASCII digits, after a plus sign or not, and has to stay below a bound. The
first digit at which something is wrong decides what is reported.
-/

namespace Jarwright.Text

/-- Why a text is not a number below the bound. -/
inductive NumberFault where
  | empty | badDigit | tooLarge
  deriving DecidableEq, Repr, Inhabited

/-- The wording of a fault. -/
def NumberFault.message : NumberFault → String
  | .empty => "cannot parse integer from empty string"
  | .badDigit => "invalid digit found in string"
  | .tooLarge => "number too large to fit in target type"

/-- Reads digits behind the value `n` of those before. -/
def digitsFrom (bound n : Nat) : List Char → Except NumberFault Nat
  | [] => .ok n
  | c :: cs =>
    if '0' ≤ c ∧ c ≤ '9' then
      let m := n * 10 + (c.toNat - 48)
      if m < bound then digitsFrom bound m cs else .error .tooLarge
    else .error .badDigit

/-- Reads a number below `bound`. -/
def unsigned (bound : Nat) : List Char → Except NumberFault Nat
  | [] => .error .empty
  | ['+'] => .error .badDigit
  | '+' :: cs => digitsFrom bound 0 cs
  | cs => digitsFrom bound 0 cs

/-- The decimal digits of a number. -/
def decimal (n : Nat) : List Char := Nat.toDigits 10 n

end Jarwright.Text
