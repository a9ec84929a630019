import Jarwright.Document.Json
import Jarwright.Source.Declaration
import Jarwright.Text.Utf8

/-!
# Access maps

An access map gives types, fields and methods another visibility than their source files do. It is
a document whose keys name types with dots, slashes or dollar signs, and may end as files do.

* `AccessMap.parse` reads the document, and `AccessMap.get?` finds what is said about a type;
* `AccessMap.edits` is the list of changes to the keywords of a file;
* `AccessMap.apply` changes a file, leaving everything but those keywords as it is.
-/

namespace Jarwright.Source

/-- What is said about one type. All methods of a name share their visibility. -/
structure Override where
  visibility : Option Visibility
  fields : List (String × Visibility)
  methods : List (String × Visibility)
  deriving DecidableEq, Repr, Inhabited

namespace Override

/-- The visibility asked for a field. -/
def field? (o : Override) (name : String) : Option Visibility := o.fields.lookup name

/-- The visibility asked for the methods of a name. -/
def method? (o : Override) (name : String) : Option Visibility := o.methods.lookup name

open Document.Value in
/-- An override as a record of a document, which may leave out fields but has no others. -/
def ofValue? (v : Document.Value) : Option Override := do
  let visibility (v : Document.Value) : Option Visibility := v.text?.bind Visibility.parse?
  let fs ← fields? ⟨false, false⟩ ["visibility", "fields", "methods"] v
  return ⟨← optional? visibility "visibility" fs, ← withDefault? (table? visibility) "fields" [] fs,
    ← withDefault? (table? visibility) "methods" [] fs⟩

end Override

/-- Overrides by the names of types, each name once. -/
structure AccessMap where
  entries : List (String × Override)
  deriving DecidableEq, Repr, Inhabited

namespace AccessMap

/-- Why there is no map, or no changed file. -/
inductive Fault where
  | unreadable
  | malformed
  | badSource
  deriving DecidableEq, Repr, Inhabited

def empty : AccessMap := ⟨[]⟩

/-- The number of types. -/
def size (m : AccessMap) : Nat := m.entries.length

/-! ## Names of types -/

/-- The name of a type with dots only: a slash or a dollar sign counts as a dot, and the ending of
a source file is left out. -/
def typeName (s : String) : String :=
  let cs := (Text.dropBack? ".java".toList s.toList).getD s.toList
  String.ofList (cs.map fun c => if c = '/' ∨ c = '$' then '.' else c)

/-- Adds an override; it replaces one of the same type. -/
def insert (m : AccessMap) (key : String) (o : Override) : AccessMap :=
  ⟨Document.Value.table?.put m.entries (typeName key, o)⟩

/-- The map of overrides given one after the other. -/
def ofList (entries : List (String × Override)) : AccessMap :=
  entries.foldl (fun m (k, o) => m.insert k o) empty

/-- What is said about a type. -/
def get? (m : AccessMap) (name : String) : Option Override := m.entries.lookup (typeName name)

/-- Whether something is said about the type that a file is named for, or about one inside it. -/
def mayTouch (m : AccessMap) (path : String) : Bool :=
  let outer := (typeName path).toList
  m.entries.any fun (key, _) =>
    match Text.dropFront? outer key.toList with
    | some [] => true
    | some (c :: _) => c == '.'
    | none => false

/-- Reads a map. -/
def parse (s : String) : Except Fault AccessMap :=
  match Document.Json.parse? s.toList with
  | none => .error .malformed
  | some v =>
    match Document.Value.table? Override.ofValue? v with
    | none => .error .malformed
    | some entries => .ok (ofList entries)

/-- Reads a map from a file, if there is one. -/
def load (file : Option Bytes) : Except Fault AccessMap :=
  match file.bind Text.Utf8.decode? with
  | none => .error .unreadable
  | some cs => parse (String.ofList cs)

/-! ## Edits -/

/-- A stretch of characters and what it is replaced with. -/
structure Edit where
  start : Nat
  stop : Nat
  text : List Char
  deriving DecidableEq, Repr, Inhabited

/-- A text with one stretch replaced. -/
def Edit.apply (e : Edit) (source : List Char) : List Char :=
  source.take e.start ++ e.text ++ source.drop e.stop

/-- A text with several stretches replaced, the last one first, so that the offsets of the others
stay right. -/
def Edit.applyAll (edits : List Edit) (source : List Char) : List Char :=
  (edits.mergeSort fun a b => b.start ≤ a.start).foldl (fun s e => e.apply s) source

/-- The change that gives a declaration a visibility: none if it has it already, else another
keyword, no keyword and no blanks behind it, or a new keyword and a blank. -/
def changeTo (source : List Char) (m : Modifiers) (v : Visibility) : Option Edit :=
  match m.keyword, v.keyword? with
  | some k, w =>
    if k.visibility = v then none
    else match w with
      | some word => some ⟨k.start, k.stop, word.toList⟩
      | none =>
        some ⟨k.start, k.stop + ((source.drop k.stop).takeWhile Text.isBlank).length, []⟩
  | none, some word => some ⟨m.insertAt, m.insertAt, word.toList ++ [' ']⟩
  | none, none => none

/-- The changes inside a type, that of nested types left out. Of the variables that share their
modifiers, the first one that is mentioned counts. Constructors are never changed. -/
def editsOf (source : List Char) (t : TypeDeclaration) (o : Override) : List Edit :=
  (o.visibility.bind (changeTo source t.modifiers)).toList
    ++ t.fields.filterMap (fun f =>
      (f.names.findSome? o.field?).bind (changeTo source f.modifiers))
    ++ (t.methods.filter (!·.isConstructor)).filterMap fun f =>
      (o.method? f.name).bind (changeTo source f.modifiers)

mutual

/-- The changes to a type and the types inside it. -/
def typeEdits (m : AccessMap) (source : List Char) : TypeDeclaration → List Edit
  | ⟨kind, name, qualifiedName, modifiers, fields, methods, types⟩ =>
    (match m.get? qualifiedName with
      | some o => editsOf source ⟨kind, name, qualifiedName, modifiers, fields, methods, types⟩ o
      | none => [])
      ++ typesEdits m source types

def typesEdits (m : AccessMap) (source : List Char) : List TypeDeclaration → List Edit
  | [] => []
  | t :: ts => typeEdits m source t ++ typesEdits m source ts

end

/-- The changes to a file with these declarations. -/
def edits (m : AccessMap) (source : List Char) (u : Unit) : List Edit :=
  typesEdits m source u.types

/-- A file with these declarations and the visibilities that the map asks for. -/
def applyTo (m : AccessMap) (source : List Char) (u : Unit) : List Char :=
  Edit.applyAll (m.edits source u) source

/-- A file with the visibilities that the map asks for. An empty map does not look at the file. -/
def apply (m : AccessMap) (source : String) : Except Fault String :=
  if m.entries.isEmpty then .ok source
  else match Unit.scan? source.toList with
    | none => .error .badSource
    | some u => .ok (String.ofList (m.applyTo source.toList u))

end AccessMap

end Jarwright.Source
