import Jarwright.ClassFile.Attribute

/-!
# Annotation trees

The payload of an annotation attribute is a tree: an annotation names its type and gives values to
elements, and a value can be an annotation or a list of values again.

* `ElementValue`, `AnnotationTree` and `TypeUse` are the trees, and their `encode` writes them;
* `readValue` and its companions read a tree and hand every index of a descriptor to a visitor,
  which edits the pool and answers the index to put in its place. Reading and editing go on hand in
  hand, so the first fault on the way is the one reported.
-/

namespace Jarwright.Renaming

open ClassFile

/-- The value of an element. -/
inductive ElementValue where
  /-- A number or a text, by the letter of its type and the index of its constant. -/
  | constant (tag : UInt8) (index : UInt16)
  | enumConstant (type name : UInt16)
  | classLiteral (descriptor : UInt16)
  /-- An annotation of a type with its elements. -/
  | nested (type : UInt16) (elements : List (UInt16 × ElementValue))
  | array (values : List ElementValue)
  deriving Repr, Inhabited

/-- An annotation: its type, and its elements by name. -/
structure AnnotationTree where
  type : UInt16
  elements : List (UInt16 × ElementValue)
  deriving Repr, Inhabited

/-- An annotation on the use of a type, with the raw bytes that say which use is meant. -/
structure TypeUse where
  targetType : UInt8
  targetInfo : Bytes
  path : Bytes
  tree : AnnotationTree
  deriving Repr, Inhabited

/-! ## The written form -/

mutual

/-- A value behind its tag. -/
def ElementValue.encode : ElementValue → Bytes
  | .constant tag index => tag :: putU2 index
  | .enumConstant type name => 101 :: putU2 type ++ putU2 name
  | .classLiteral descriptor => 99 :: putU2 descriptor
  | .nested type elements =>
    64 :: putU2 type ++ Bytes.bigEndian 2 elements.length ++ encodeElements elements
  | .array values => 91 :: Bytes.bigEndian 2 values.length ++ encodeValues values

/-- Elements one after the other. -/
def encodeElements : List (UInt16 × ElementValue) → Bytes
  | [] => []
  | (name, value) :: rest => putU2 name ++ value.encode ++ encodeElements rest

/-- Values one after the other. -/
def encodeValues : List ElementValue → Bytes
  | [] => []
  | value :: rest => value.encode ++ encodeValues rest

end

/-- An annotation's type and its counted elements. -/
def AnnotationTree.encode (t : AnnotationTree) : Bytes :=
  putU2 t.type ++ Bytes.bigEndian 2 t.elements.length ++ encodeElements t.elements

/-- What is annotated, and the annotation. -/
def TypeUse.encode (t : TypeUse) : Bytes :=
  t.targetType :: t.targetInfo ++ t.path ++ t.tree.encode

/-! ## Reading hand in hand with edits -/

/-- A step that takes bytes off a payload and edits a pool. -/
abbrev Payload := StateT Bytes ConstantPool.Edit

namespace Payload

/-- A reader as a step. -/
def read {α : Type} (r : Reader α) : Payload α := fun bs pool =>
  match r bs with
  | .ok x rest => .ok (x, rest) pool
  | .error e _ => .error e pool

/-- An edit as a step. -/
def edit {α : Type} (e : ConstantPool.Edit α) : Payload α := fun bs pool =>
  match e pool with
  | .ok x pool => .ok (x, bs) pool
  | .error e pool => .error e pool

/-- Runs a step on a payload, which it has to use up. -/
def run {α : Type} (layout : Layout) (step : Payload α) (payload : Bytes) :
    ConstantPool.Edit α := fun pool =>
  match step payload pool with
  | .ok (x, []) pool => .ok x pool
  | .ok (_, _ :: _) pool => .error (.badLayout layout) pool
  | .error e pool => .error e pool

end Payload

/-- The letters of the values that are one constant. -/
def isConstantTag (tag : UInt8) : Bool :=
  tag == 66 || tag == 67 || tag == 68 || tag == 70 || tag == 73 || tag == 74 || tag == 83
    || tag == 90 || tag == 115

/-- Reads a value. Each value inside another one is at least a byte shorter, so the length of the
payload bounds the depth. -/
def readValue (visit : UInt16 → ConstantPool.Edit UInt16) : Nat → Payload ElementValue
  | 0 => Payload.edit (throw .truncated)
  | depth + 1 => do
    let tag ← Payload.read Reader.u1
    if isConstantTag tag then
      return .constant tag (← Payload.read Reader.u2)
    else if tag = 101 then
      let type ← Payload.read Reader.u2
      let type ← Payload.edit (visit type)
      return .enumConstant type (← Payload.read Reader.u2)
    else if tag = 99 then
      let descriptor ← Payload.read Reader.u2
      return .classLiteral (← Payload.edit (visit descriptor))
    else if tag = 64 then
      let type ← Payload.read Reader.u2
      let type ← Payload.edit (visit type)
      let count ← Payload.read Reader.u2
      let elements ← Reader.times count.toNat do
        let name ← Payload.read Reader.u2
        let value ← readValue visit depth
        return (name, value)
      return .nested type elements
    else if tag = 91 then
      let count ← Payload.read Reader.u2
      return .array (← Reader.times count.toNat (readValue visit depth))
    else Payload.edit (throw (.badLayout .elementValue))

/-- Reads a value to the depth that the bytes still to be read allow. -/
def readElementValue (visit : UInt16 → ConstantPool.Edit UInt16) : Payload ElementValue := do
  readValue visit (← get).length

/-- Reads an annotation. -/
def readTree (visit : UInt16 → ConstantPool.Edit UInt16) : Payload AnnotationTree := do
  let type ← Payload.read Reader.u2
  let type ← Payload.edit (visit type)
  let count ← Payload.read Reader.u2
  let elements ← Reader.times count.toNat do
    let name ← Payload.read Reader.u2
    let value ← readElementValue visit
    return (name, value)
  return ⟨type, elements⟩

/-- Reads a counted list of annotations. -/
def readTrees (visit : UInt16 → ConstantPool.Edit UInt16) : Payload (List AnnotationTree) := do
  let count ← Payload.read Reader.u2
  Reader.times count.toNat (readTree visit)

/-- Reads a list of annotations for each parameter, counted on one byte. -/
def readParameters (visit : UInt16 → ConstantPool.Edit UInt16) :
    Payload (List (List AnnotationTree)) := do
  let count ← Payload.read Reader.u1
  Reader.times count.toNat (readTrees visit)

/-- The number of bytes that say which use of a type is meant; for local variables they stand
behind a count. -/
inductive TargetSize where
  | fixed (n : Nat)
  | table
  deriving DecidableEq, Repr, Inhabited

/-- The size that belongs to a kind of target, if there is such a kind. -/
def targetSize? (targetType : UInt8) : Option TargetSize :=
  let t := targetType.toNat
  if t = 0x00 ∨ t = 0x01 ∨ t = 0x16 then some (.fixed 1)
  else if t = 0x10 ∨ t = 0x11 ∨ t = 0x12 ∨ t = 0x17 ∨ 0x42 ≤ t ∧ t ≤ 0x46 then some (.fixed 2)
  else if 0x13 ≤ t ∧ t ≤ 0x15 then some (.fixed 0)
  else if 0x47 ≤ t ∧ t ≤ 0x4b then some (.fixed 3)
  else if t = 0x40 ∨ t = 0x41 then some .table
  else none

/-- Reads the bytes that say which use of a type is meant. -/
def readTarget (targetType : UInt8) : Reader Bytes := do
  match targetSize? targetType with
  | none => throw (.badLayout .typeAnnotationTarget)
  | some (.fixed n) => Reader.take n
  | some .table =>
    let count ← Reader.u2
    let entries ← Reader.take (count.toNat * 6)
    return putU2 count ++ entries

/-- Reads a path behind the number of its steps. -/
def readPath : Reader Bytes := do
  let length ← Reader.u1
  let steps ← Reader.take (length.toNat * 2)
  return length :: steps

/-- Reads an annotation on the use of a type. -/
def readTypeUse (visit : UInt16 → ConstantPool.Edit UInt16) : Payload TypeUse := do
  let targetType ← Payload.read Reader.u1
  let targetInfo ← Payload.read (readTarget targetType)
  let path ← Payload.read readPath
  let tree ← readTree visit
  return ⟨targetType, targetInfo, path, tree⟩

/-- Reads a counted list of annotations on uses of types. -/
def readTypeUses (visit : UInt16 → ConstantPool.Edit UInt16) : Payload (List TypeUse) := do
  let count ← Payload.read Reader.u2
  Reader.times count.toNat (readTypeUse visit)

end Jarwright.Renaming
