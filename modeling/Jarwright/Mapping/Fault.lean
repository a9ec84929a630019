import Jarwright.Text.Number
import Jarwright.Text.Quoted

/-!
# What can be wrong with a table of names
-/

namespace Jarwright.Mapping

/-- What is wrong with a row of a table. -/
inductive RowFault where
  | unterminatedQuote
  | tooFewColumns (found : Nat)
  /-- The third column is not a number of one byte. -/
  | badCode (column : String) (cause : Text.NumberFault)
  deriving DecidableEq, Repr, Inhabited

/-- The wording of a row's fault. -/
def RowFault.message : RowFault → String
  | .unterminatedQuote => "unterminated quoted field"
  | .tooFewColumns n => s!"expected at least 3 columns, found {n}"
  | .badCode column cause => s!"invalid side code {Text.quote column}: {cause.message}"

/-- Why a table of names cannot be used. -/
inductive Fault where
  /-- The file is missing or holds no text. -/
  | unreadable
  /-- A row of a comma-separated table is malformed; lines count from one. -/
  | badRow (line : Nat) (cause : RowFault)
  | unknownSide (value : String)
  deriving DecidableEq, Repr, Inhabited

/-- The wording of a fault; an unreadable file is reported by its kind alone. -/
def Fault.message : Fault → String
  | .unreadable => "failed to read mapping file"
  | .badRow line cause => s!"malformed csv mapping at line {line}: {cause.message}"
  | .unknownSide value =>
    s!"unknown side {Text.quote value}; expected \"client\" or \"server\""

end Jarwright.Mapping
