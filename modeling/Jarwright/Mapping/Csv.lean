import Std.Data.HashMap
import Jarwright.Mapping.Side
import Jarwright.Text.Utf8

/-!
# Names in comma-separated tables

A table has a header line and then rows of an old name, a new name and a code for the side. The
new name holds for every member with the old one, whatever its owner and its type.

* `columnsOf` takes a row apart, undoing the quotes around columns;
* `Csv.parse` reads a table for one side; the last row for a name wins;
* `Csv.get?` looks a name up.
-/

namespace Jarwright.Mapping

/-- Takes the rest of a row apart. `quoted` says whether a quote is open, `column` holds the
characters of the current column, latest first. A quote opens where the column is still empty; a
doubled quote inside stands for one. -/
def columnsFrom (quoted : Bool) (column : List Char) :
    List Char → Except RowFault (List (List Char))
  | [] => if quoted then .error .unterminatedQuote else .ok [column.reverse]
  | c :: cs =>
    if quoted then
      if c = '"' then
        match cs with
        | '"' :: cs => columnsFrom true ('"' :: column) cs
        | cs => columnsFrom false column cs
      else columnsFrom true (c :: column) cs
    else if c = '"' ∧ column = [] then columnsFrom true column cs
    else if c = ',' then (columnsFrom false [] cs).map (column.reverse :: ·)
    else columnsFrom false (c :: column) cs

/-- The columns of a row. -/
def columnsOf (row : List Char) : Except RowFault (List (List Char)) := columnsFrom false [] row

/-- A renaming of names, whatever they belong to. -/
structure Csv where
  names : Std.HashMap String String
  deriving Inhabited

namespace Csv

/-- The table without rows. -/
def empty : Csv := ⟨∅⟩

/-- The new name for a name, if there is one. -/
def get? (table : Csv) (name : String) : Option String := table.names[name]?

/-- The number of names. -/
def size (table : Csv) : Nat := table.names.size

/-- What a row says. -/
structure Row where
  old : String
  new : String
  code : Nat
  deriving DecidableEq, Repr, Inhabited

/-- Reads a row. -/
def Row.parse (line : List Char) : Except RowFault Row :=
  match columnsOf line with
  | .error e => .error e
  | .ok (old :: new :: code :: _) =>
    match Text.unsigned 256 (Text.trim code) with
    | .ok n => .ok ⟨String.ofList old, String.ofList new, n⟩
    | .error cause => .error (.badCode (String.ofList code) cause)
  | .ok columns => .error (.tooFewColumns columns.length)

/-- A line without the carriage returns at its end. -/
def cleanLine (line : List Char) : List Char := Text.trimEndWith (· == '\r') line

/-- Whether a line holds nothing but blanks. -/
def isBlankLine (line : List Char) : Bool := line.all Text.isBlank

/-- Reads rows from line number `number` on into a table. -/
def parseRows (side : Side) (table : Csv) (number : Nat) :
    List (List Char) → Except Fault Csv
  | [] => .ok table
  | line :: lines =>
    let line := cleanLine line
    if isBlankLine line then parseRows side table (number + 1) lines
    else
      match Row.parse line with
      | .error cause => .error (.badRow number cause)
      | .ok row =>
        let ⟨names⟩ := table
        let table := if side.accepts row.code then ⟨names.insert row.old row.new⟩ else ⟨names⟩
        parseRows side table (number + 1) lines

/-- Reads a table for one side; the first line is its header. -/
def parse (text : String) (side : Side) : Except Fault Csv :=
  parseRows side empty 2 ((Text.lines text.toList).drop 1)

/-- Reads the content of a file, if there is one. -/
def load (content : Option Bytes) (side : Side) : Except Fault Csv :=
  match content >>= Text.Utf8.decode? with
  | some cs => parse (String.ofList cs) side
  | none => .error .unreadable

end Csv

end Jarwright.Mapping
