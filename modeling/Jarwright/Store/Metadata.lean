import Jarwright.Document.Json
import Jarwright.Store.Coordinate
import Jarwright.Text.Utf8

/-!
# Metadata of artifacts

A repository keeps a small document next to each artifact that says what the artifact is, what
its content has to be and when it was stored.

* `Metadata.parse?` and `Metadata.encode` read and write the document.
-/

namespace Jarwright.Store

/-- What is known about a stored artifact. -/
structure Metadata where
  coordinate : Coordinate
  description : Option String
  /-- The fingerprint of the content in hexadecimal digits. -/
  sha256 : String
  size : Nat
  /-- The time of storing in milliseconds. -/
  created : Nat
  deriving DecidableEq, Repr, Inhabited

namespace Metadata

open Document (Value)

/-- The names of the fields in their order. -/
def fieldNames : List String := ["coordinate", "description", "sha256", "size", "created_millis"]

/-- The coordinate that a value spells. -/
def coordinate? (v : Value) : Option Coordinate := do
  (Coordinate.parse (← v.text?)).toOption

/-- Metadata as a record of a document, which may have other fields. -/
def ofValue? (v : Value) : Option Metadata := do
  let fields ← v.fields? ⟨true, false⟩ fieldNames
  return {
    coordinate := ← Value.required? coordinate? "coordinate" fields
    description := ← Value.optional? Value.text? "description" fields
    sha256 := ← Value.required? Value.text? "sha256" fields
    size := ← Value.required? Value.word? "size" fields
    created := ← Value.required? Value.word? "created_millis" fields }

/-- The record of metadata; a missing description is left out. -/
def toValue (m : Metadata) : Value :=
  .record ([("coordinate", .text m.coordinate.text)]
    ++ (m.description.map fun d => ("description", Value.text d)).toList
    ++ [("sha256", .text m.sha256), ("size", .integer m.size),
      ("created_millis", .integer m.created)])

/-- The metadata that a document spells. -/
def parse? (content : Bytes) : Option Metadata := do
  ofValue? (← Document.Json.parse? (← Text.Utf8.decode? content))

/-- The document of metadata, with a line feed behind it. -/
def encode (m : Metadata) : Bytes :=
  Text.Utf8.encode (Document.Json.render 0 m.toValue ++ ['\n'])

/-- The time since storing; a clock that was put back makes no artifact older. -/
def age (m : Metadata) (now : Nat) : Nat := now - m.created

end Metadata

end Jarwright.Store
