import Jarwright.Proofs.Document.Json
import Jarwright.Proofs.Store.Coordinate
import Jarwright.Proofs.Text.Utf8
import Jarwright.Store.Metadata

/-!
# Sidecars are read as they were written

The document of metadata spells these metadata (`parse?_encode`), if its coordinate is one that a
text spells and its numbers have 64 bits. If nothing spells its coordinate, it spells nothing
(`parse?_encode_of_unspelled`).
-/

namespace Jarwright.Store.Metadata

open Document (Value)

variable {m : Metadata}

theorem whole_toValue (m : Metadata) : Document.Json.Whole m.toValue := by
  cases hdescription : m.description <;> simp [toValue, hdescription, Document.Json.Whole,
    Document.Json.WholeFields]

theorem coordinate?_text {s : String} (h : Coordinate.parse s = .ok m.coordinate) :
    coordinate? (.text m.coordinate.text) = some m.coordinate := by
  rw [coordinate?, Value.text?]
  simp only [Option.bind_eq_bind, Option.bind_some, Coordinate.parse_text h]
  rfl

theorem word?_integer {n : Nat} (h : n < UInt64.size) : Value.word? (.integer n) = some n := by
  exact if_pos h

/-- The names of the fields all differ, so that the record has the fields that were put into it. -/
theorem fields?_toValue (m : Metadata) :
    m.toValue.fields? ⟨true, false⟩ fieldNames
      = some ([("coordinate", .text m.coordinate.text)]
        ++ (m.description.map fun d => ("description", Value.text d)).toList
        ++ [("sha256", .text m.sha256), ("size", .integer m.size),
          ("created_millis", .integer m.created)]) := by
  cases hdescription : m.description <;>
    simp [toValue, hdescription, Value.fields?, fieldNames, Value.hasTwice]

/-- Every field is read as it was put there. -/
theorem ofValue?_toValue {s : String} (h : Coordinate.parse s = .ok m.coordinate)
    (hsize : m.size < UInt64.size) (hcreated : m.created < UInt64.size) :
    ofValue? m.toValue = some m := by
  have hcoordinate := coordinate?_text h
  have hsize := word?_integer hsize
  have hcreated := word?_integer hcreated
  rw [ofValue?, fields?_toValue]
  obtain ⟨coordinate, description, sha256, size, created⟩ := m
  cases description with
  | none =>
    simp [Value.required?, Value.optional?, Value.withDefault?, List.lookup_cons, hcoordinate,
      hsize, hcreated, Value.text?]
  | some description =>
    simp [Value.required?, Value.optional?, Value.withDefault?, Value.orNull?, List.lookup_cons,
      hcoordinate, hsize, hcreated, Value.text?]

/-- The document of metadata is the record that was written. -/
theorem parse?_encode_eq_ofValue? (m : Metadata) : parse? m.encode = ofValue? m.toValue := by
  have hrender := Document.Json.parse?_render (whole_toValue m) 0
    (fun c hc => by rw [List.mem_singleton.1 hc]; rfl : ∀ c ∈ ['\n'], _)
  rw [parse?, encode, Text.Utf8.decode?_encode]
  simp only [Option.bind_eq_bind, Option.bind_some, hrender]

/-- The document of metadata spells these metadata. -/
theorem parse?_encode {s : String} (h : Coordinate.parse s = .ok m.coordinate)
    (hsize : m.size < UInt64.size) (hcreated : m.created < UInt64.size) :
    parse? m.encode = some m :=
  (parse?_encode_eq_ofValue? m).trans (ofValue?_toValue h hsize hcreated)

/-- The document of metadata whose coordinate nothing spells cannot be read. -/
theorem parse?_encode_of_unspelled (h : ∀ c, Coordinate.parse m.coordinate.text ≠ .ok c) :
    parse? m.encode = none := by
  have hcoordinate : coordinate? (.text m.coordinate.text) = none := by
    rw [coordinate?, Value.text?]
    cases hparse : Coordinate.parse m.coordinate.text with
    | ok c => exact absurd hparse (h c)
    | error flaw => simp [hparse, Except.toOption]
  rw [parse?_encode_eq_ofValue?, ofValue?, fields?_toValue]
  simp [Value.required?, List.lookup_cons, hcoordinate]

end Jarwright.Store.Metadata
