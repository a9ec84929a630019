import Jarwright.Bytes
import Jarwright.Text.Blank

/-!
# Archive entries

An archive is a list of entries in order. An entry whose name ends in a slash or a backslash is a
directory and has no content.
-/

namespace Jarwright.Archive

/-- How the content of an entry is packed. -/
inductive Method where
  | stored | deflated
  /-- Another method, by its number. -/
  | other (code : Nat)
  deriving DecidableEq, Repr, Inhabited

/-- The time of an entry, without a zone and with a resolution of two seconds. -/
structure Stamp where
  year : Nat
  month : Nat
  day : Nat
  hour : Nat
  minute : Nat
  second : Nat
  deriving DecidableEq, Repr, Inhabited

/-- The start of the calendar of archives, and the time of entries that are written anew. -/
def Stamp.first : Stamp := ⟨1980, 1, 1, 0, 0, 0⟩

/-- An entry of an archive. -/
structure Entry where
  name : String
  method : Method
  time : Stamp
  content : Bytes
  deriving DecidableEq, Repr, Inhabited

namespace Entry

/-- Whether a name is the name of a directory. -/
def isDirectoryName (name : String) : Bool :=
  match name.toList.getLast? with
  | some c => c == '/' || c == '\\'
  | none => false

/-- Whether an entry is a directory. -/
def isDirectory (e : Entry) : Bool := isDirectoryName e.name

/-- A file written anew: deflated, at the start of the calendar. -/
def file (name : String) (content : Bytes) : Entry := ⟨name, .deflated, .first, content⟩

/-- A directory written anew; a slash marks its name unless it is marked already. -/
def directory (name : String) : Entry :=
  ⟨if isDirectoryName name then name else name ++ "/", .stored, .first, []⟩

end Entry

/-- Adds an entry behind the others, unless one of them has its name. -/
def add? (entries : List Entry) (e : Entry) : Option (List Entry) :=
  if entries.any (·.name == e.name) then none else some (entries ++ [e])

end Jarwright.Archive
