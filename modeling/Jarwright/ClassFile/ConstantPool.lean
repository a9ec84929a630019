import Std.Data.TreeMap
import Jarwright.ClassFile.Constant
import Jarwright.Text.ModifiedUtf8

/-!
# Constant pools

A pool is a numbered list of constants. It only ever grows: an entry may be redirected to another
constant of the same width, but no index ever changes its place, so the indices inside bytecode
stay valid.

* `ConstantPool.read` and `ConstantPool.encode` are the two directions of the written form;
* `get`, `utf8`, `className`, `nameAndType` resolve indices;
* `intern` answers the index of a constant and appends it if the pool does not know it;
* `set` redirects an entry.

An edit that fails may still have appended constants on the way, so edits are functions on the pool
that give it back in both cases.
-/

namespace Jarwright.ClassFile

/-- A constant pool; `lookup` finds the index at which a constant is known. -/
structure ConstantPool where
  entries : Array Constant
  lookup : Std.TreeMap Constant UInt16
  deriving Inhabited

namespace ConstantPool

/-- The pool that has only its unusable slot 0. -/
def empty : ConstantPool := ⟨#[.unusable], ∅⟩

/-- The number of slots, slot 0 included. -/
def count (pool : ConstantPool) : Nat := pool.entries.size

/-- Adds a constant behind the last slot, with the unusable slot that a wide one needs. A constant
that is known already keeps the index at which it was known first. -/
def append (pool : ConstantPool) (c : Constant) : ConstantPool :=
  let index := UInt16.ofNat pool.entries.size
  let entries := pool.entries.push c
  { entries := if c.slots = 2 then entries.push .unusable else entries
    lookup := pool.lookup.insertIfNew c index }

/-! ## The written form -/

/-- Reads constants until `n` more slots are taken. -/
def readEntries (n : Nat) (pool : ConstantPool) : Reader ConstantPool :=
  if n = 0 then return pool
  else do
    let c ← Constant.read
    readEntries (n - c.slots) (pool.append c)
termination_by n
decreasing_by have := c.one_le_slots; omega

/-- Reads a pool behind its slot count. A last constant of two slots may overrun the count. -/
def read : Reader ConstantPool := do
  let declared := (← Reader.u2).toNat
  let pool ← readEntries (declared - 1) empty
  if pool.count = declared then return pool
  else throw (.slotCount declared pool.count)

/-- A pool behind its slot count. -/
def encode (pool : ConstantPool) : Bytes :=
  Bytes.bigEndian 2 pool.count ++ pool.entries.toList.flatMap Constant.encode

/-! ## Resolving indices -/

/-- The usable entries with their indices, in order. -/
def toList (pool : ConstantPool) : List (UInt16 × Constant) :=
  (pool.entries.toList.zipIdx.filter fun e => e.1 ≠ .unusable).map
    fun e => (UInt16.ofNat e.2, e.1)

/-- The usable entry at an index. -/
def get (pool : ConstantPool) (index : UInt16) : Except Fault Constant :=
  match pool.entries[index.toNat]? with
  | none => .error (.badIndex index)
  | some .unusable => .error (.badIndex index)
  | some c => .ok c

/-- The text at an index. -/
def utf8 (pool : ConstantPool) (index : UInt16) : Except Fault String :=
  match pool.get index with
  | .error e => .error e
  | .ok (.utf8 bytes) =>
    match Text.ModifiedUtf8.decode? bytes with
    | some cs => .ok (String.ofList cs)
    | none => .error .badModifiedUtf8
  | .ok c => .error (.wrongKind index .utf8 c.kind)

/-- The name of the class at an index. -/
def className (pool : ConstantPool) (index : UInt16) : Except Fault String :=
  match pool.get index with
  | .error e => .error e
  | .ok (.classRef name) => pool.utf8 name
  | .ok c => .error (.wrongKind index .classRef c.kind)

/-- The name and the descriptor at an index. -/
def nameAndType (pool : ConstantPool) (index : UInt16) : Except Fault (String × String) :=
  match pool.get index with
  | .error e => .error e
  | .ok (.nameAndType name descriptor) => do
    let n ← pool.utf8 name
    let d ← pool.utf8 descriptor
    return (n, d)
  | .ok c => .error (.wrongKind index .nameAndType c.kind)

/-! ## Edits -/

/-- A change to a pool, which stands also when it fails. -/
abbrev Edit := EStateM Fault ConstantPool

/-- The index of a constant, appended unless the pool knows it. -/
def intern (c : Constant) : Edit UInt16 := fun pool =>
  match pool.lookup[c]? with
  | some index => .ok index pool
  | none =>
    let index := pool.count
    if index + c.slots > 65535 then .error .poolFull pool
    else .ok (UInt16.ofNat index) (pool.append c)

/-- Redirects the entry at an index to a constant of the same width. -/
def set (index : UInt16) (c : Constant) : Edit Unit := fun pool =>
  match pool.get index with
  | .error e => .error e pool
  | .ok old =>
    if old.slots ≠ c.slots then .error (.slotWidth index) pool
    else
      let known := pool.lookup[old]? == some index
      let ⟨entries, lookup⟩ := pool
      let lookup := if known then lookup.erase old else lookup
      .ok () ⟨entries.setIfInBounds index.toNat c, lookup.insertIfNew c index⟩

/-- The index of a text. -/
def internUtf8 (text : String) : Edit UInt16 :=
  let bytes := Text.ModifiedUtf8.encode text.toList
  if bytes.length > 65535 then throw (.stringTooLong bytes.length)
  else intern (.utf8 bytes)

/-- The index of a class by its name. -/
def internClass (name : String) : Edit UInt16 := do
  intern (.classRef (← internUtf8 name))

/-- The index of a string constant. -/
def internString (text : String) : Edit UInt16 := do
  intern (.string (← internUtf8 text))

/-- The index of a pair of name and descriptor. -/
def internNameAndType (name descriptor : String) : Edit UInt16 := do
  let n ← internUtf8 name
  let d ← internUtf8 descriptor
  intern (.nameAndType n d)

/-- The index of a reference to a field. -/
def internFieldRef (owner name descriptor : String) : Edit UInt16 := do
  let c ← internClass owner
  let m ← internNameAndType name descriptor
  intern (.fieldRef c m)

/-- The index of a reference to a method of a class or of an interface. -/
def internMethodRef (owner name descriptor : String) (isInterface : Bool) : Edit UInt16 := do
  let c ← internClass owner
  let m ← internNameAndType name descriptor
  intern (if isInterface then .interfaceMethodRef c m else .methodRef c m)

end ConstantPool

end Jarwright.ClassFile
