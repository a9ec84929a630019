import Std.Data.HashMap
import Jarwright.Mapping.Fault
import Jarwright.Text.Blank
import Jarwright.Text.Utf8

/-!
# Names by owner

A compact table renames types, and members by the type that declares them. A line says by its
number of words what it renames: a type, a field of an owner, or a method of an owner with its
descriptor. Lines of other shapes are passed over, and the last line for a name wins.

* `Entry.ofLine?` reads a line;
* `Compact.parse` reads a table;
* `typeName?`, `fieldName?`, `methodName?` look names up.
-/

namespace Jarwright.Mapping

/-- What a line renames. -/
inductive Entry where
  | type (old new : String)
  | field (owner old new : String)
  | method (owner old descriptor new : String)
  deriving DecidableEq, Repr, Inhabited

/-- Reads a line, if it is not blank, no comment, and has a known number of words. -/
def Entry.ofLine? (line : List Char) : Option Entry :=
  match Text.trim line with
  | '#' :: _ => none
  | line =>
    match (Text.words line).map String.ofList with
    | [old, new] => some (.type old new)
    | [owner, old, new] => some (.field owner old new)
    | [owner, old, descriptor, new] => some (.method owner old descriptor new)
    | _ => none

/-- A renaming of types, and of members by their owner; a method goes by its owner and its key. -/
structure Compact where
  types : Std.HashMap String String
  fields : Std.HashMap (String × String) String
  methods : Std.HashMap (String × String) String
  deriving Inhabited

namespace Compact

/-- The name and the descriptor of a method as one text, with a space between them. -/
def methodKey (name descriptor : String) : String := name ++ " " ++ descriptor

/-- The table without lines. -/
def empty : Compact := ⟨∅, ∅, ∅⟩

/-- A table with one more line. -/
def insert (table : Compact) : Entry → Compact
  | .type old new => { table with types := table.types.insert old new }
  | .field owner old new => { table with fields := table.fields.insert (owner, old) new }
  | .method owner old descriptor new =>
    { table with methods := table.methods.insert (owner, methodKey old descriptor) new }

/-- The table of a list of lines. -/
def ofEntries (entries : List Entry) : Compact := entries.foldl insert empty

/-- Reads a table. -/
def parse (text : String) : Compact :=
  ofEntries ((Text.lines text.toList).filterMap Entry.ofLine?)

/-- Reads the content of a file, if there is one. -/
def load (content : Option Bytes) : Except Fault Compact :=
  match content >>= Text.Utf8.decode? with
  | some cs => .ok (parse (String.ofList cs))
  | none => .error .unreadable

/-- The new name of a type, if there is one. -/
def typeName? (table : Compact) (name : String) : Option String := table.types[name]?

/-- The new name of a field that its owner declares, if there is one. -/
def fieldName? (table : Compact) (owner name : String) : Option String :=
  table.fields[(owner, name)]?

/-- The new name of a method that its owner declares, if there is one. -/
def methodName? (table : Compact) (owner name descriptor : String) : Option String :=
  table.methods[(owner, methodKey name descriptor)]?

/-- Whether the table renames nothing. -/
def isEmpty (table : Compact) : Bool :=
  table.types.isEmpty && table.fields.isEmpty && table.methods.isEmpty

end Compact

end Jarwright.Mapping
