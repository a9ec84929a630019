import Jarwright.Mapping.Fault
import Jarwright.Text.Blank

/-!
# Sides

A build is either the client or the server. The rows of a table carry a code that says to which of
them they apply.
-/

namespace Jarwright.Mapping

/-- The build to which names apply. -/
inductive Side where
  | client | server
  deriving DecidableEq, Repr, Inhabited

namespace Side

/-- The code of rows that apply to both sides. -/
def bothCode : Nat := 2

/-- The code of rows that apply to this side only. -/
def code : Side → Nat
  | client => 0
  | server => 1

/-- The name of a side. -/
def name : Side → String
  | client => "client"
  | server => "server"

/-- Whether a row with this code applies. -/
def accepts (side : Side) (c : Nat) : Bool := c == bothCode || c == side.code

/-- Lower case for the letters of ASCII. -/
def lowerAscii (c : Char) : Char :=
  if 'A' ≤ c ∧ c ≤ 'Z' then Char.ofNat (c.toNat + 32) else c

/-- The side that a text names, in any case and with blanks around it. -/
def parse (value : String) : Except Fault Side :=
  let word := String.ofList ((Text.trim value.toList).map lowerAscii)
  if word = "client" then .ok client
  else if word = "server" then .ok server
  else .error (.unknownSide value)

end Side

end Jarwright.Mapping
