import Jarwright.ClassFile.Descriptor
import Jarwright.Hierarchy
import Jarwright.Mapping.Compact
import Jarwright.Mapping.Csv

/-!
# Resolvers of names

A resolver gives the new name of a type, and of a field or a method by its owner and descriptor. A
name it does not know keeps its form, and no question is an error.

* `Resolver.byOwner` renames types, and members with what a type or one above it declares;
* `Resolver.byName` renames members by their names alone;
* `Resolver.compose` asks a second resolver about what a first one answers.
-/

namespace Jarwright

/-- The new names of types and of members. -/
structure Resolver where
  type : String → String
  field : (owner name descriptor : String) → String
  method : (owner name descriptor : String) → String

namespace Resolver

/-- The new form of a descriptor. -/
def descriptor (r : Resolver) (d : String) : Except ClassFile.Fault String :=
  ClassFile.Descriptor.map r.type d

/-- Constructors and class initialisers, which keep their names. -/
def isSpecial (name : String) : Bool := name == "<init>" || name == "<clinit>"

/-- Renames types by a table, and a member with the first entry for it that is found on the way up
from its owner. -/
def byOwner (table : Mapping.Compact) (h : Hierarchy) : Resolver where
  type name := (table.typeName? name).getD name
  field owner name _ := (h.find? owner fun c => table.fieldName? c name).getD name
  method owner name descriptor :=
    if isSpecial name then name
    else (h.find? owner fun c => table.methodName? c name descriptor).getD name

/-- Renames members by their names alone. -/
def byName (fields methods : Mapping.Csv) : Resolver where
  type name := name
  field _ name _ := (fields.get? name).getD name
  method _ name _ := if isSpecial name then name else (methods.get? name).getD name

/-- The form in which a descriptor is handed on: a malformed one stays as it is. -/
def forward (r : Resolver) (d : String) : String :=
  match r.descriptor d with
  | .ok mapped => mapped
  | .error _ => d

/-- Asks the second resolver about the names that the first one gives. -/
def compose (first second : Resolver) : Resolver where
  type name := second.type (first.type name)
  field owner name descriptor :=
    second.field (first.type owner) (first.field owner name descriptor) (first.forward descriptor)
  method owner name descriptor :=
    second.method (first.type owner) (first.method owner name descriptor)
      (first.forward descriptor)

/-- The resolver that renames nothing. -/
def identity : Resolver := ⟨id, fun _ name _ => name, fun _ name _ => name⟩

end Resolver

end Jarwright
