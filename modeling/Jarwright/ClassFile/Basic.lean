import Jarwright.ClassFile.Attribute

/-!
# Class files

A class file keeps its whole pool and every attribute payload, so that it can be changed in places
and written again.

* `ClassFile.parse` and `ClassFile.encode` are the two directions of the written form;
* `ClassFile.header` resolves what a class says about its place among other classes;
* `Header.parse` reads that from the bytes without looking at members.
-/

namespace Jarwright

open ClassFile

/-- A field or a method. -/
structure ClassFile.Member where
  flags : UInt16
  name : UInt16
  descriptor : UInt16
  attributes : List Attribute
  deriving DecidableEq, Repr, Inhabited

/-- A class file. The index of the superclass is 0 where there is none. -/
structure ClassFile where
  minor : UInt16
  major : UInt16
  pool : ConstantPool
  flags : UInt16
  thisClass : UInt16
  superClass : UInt16
  interfaces : List UInt16
  fields : List Member
  methods : List Member
  attributes : List Attribute
  deriving Inhabited

/-- What a class says about its place among other classes. -/
structure ClassFile.Header where
  flags : UInt16
  name : String
  superName : Option String
  interfaces : List String
  deriving DecidableEq, Repr, Inhabited

namespace ClassFile

/-- The number at the start of every class file. -/
def magic : UInt32 := 0xcafebabe

namespace Member

/-- Reads one member. -/
def read : Reader Member := do
  let flags ← Reader.u2
  let name ← Reader.u2
  let descriptor ← Reader.u2
  let attributes ← Attribute.readAll
  return ⟨flags, name, descriptor, attributes⟩

/-- Reads a counted list of members. -/
def readAll : Reader (List Member) := do
  let count ← Reader.u2
  Reader.times count.toNat read

/-- A member's indices and attributes. -/
def encode (m : Member) : Bytes :=
  putU2 m.flags ++ putU2 m.name ++ putU2 m.descriptor ++ Attribute.encodeAll m.attributes

end Member

/-- Reads the magic number, the version and the pool. -/
def readFront : Reader (UInt16 × UInt16 × ConstantPool) := do
  let m ← Reader.u4
  if m ≠ magic then throw (.badMagic m)
  let minor ← Reader.u2
  let major ← Reader.u2
  let pool ← ConstantPool.read
  return (minor, major, pool)

/-- The name of the class. -/
def name (c : ClassFile) : Except Fault String := c.pool.className c.thisClass

/-- The name of a superclass by its index, 0 for none. -/
def superNameOf (pool : ConstantPool) (index : UInt16) : Except Fault (Option String) :=
  if index = 0 then .ok none else (pool.className index).map some

/-- The name of the superclass, if there is one. -/
def superName (c : ClassFile) : Except Fault (Option String) := superNameOf c.pool c.superClass

/-- The names of the interfaces, in order of declaration. -/
def interfaceNames (c : ClassFile) : Except Fault (List String) :=
  c.interfaces.mapM c.pool.className

/-- What the class says about its place among other classes. -/
def header (c : ClassFile) : Except Fault Header := do
  let name ← c.name
  let superName ← c.superName
  let interfaces ← c.interfaceNames
  return ⟨c.flags, name, superName, interfaces⟩

/-- Turns the result of resolving an index into a step of a reader. -/
def Reader.lift {α : Type} (r : Except Fault α) : Reader α :=
  match r with
  | .ok x => pure x
  | .error e => throw e

/-- Reads a class file that uses up its bytes and whose own name resolves. -/
def read : Reader ClassFile := do
  let (minor, major, pool) ← readFront
  let flags ← Reader.u2
  let thisClass ← Reader.u2
  let superClass ← Reader.u2
  let interfaceCount ← Reader.u2
  let interfaces ← Reader.times interfaceCount.toNat Reader.u2
  let fields ← Member.readAll
  let methods ← Member.readAll
  let attributes ← Attribute.readAll
  Reader.expectEnd
  let c : ClassFile :=
    ⟨minor, major, pool, flags, thisClass, superClass, interfaces, fields, methods, attributes⟩
  let _ ← Reader.lift c.name
  return c

/-- The class file that a byte string holds. -/
def parse (bs : Bytes) : Except Fault ClassFile := Reader.eval read bs

/-- The written form of a class file. -/
def encode (c : ClassFile) : Bytes :=
  putU4 magic ++ putU2 c.minor ++ putU2 c.major ++ c.pool.encode ++ putU2 c.flags
    ++ putU2 c.thisClass ++ putU2 c.superClass ++ putList putU2 c.interfaces
    ++ putList Member.encode c.fields ++ putList Member.encode c.methods
    ++ Attribute.encodeAll c.attributes

namespace Header

/-- Reads the header and stops before the members; each name is resolved where its index
stands. -/
def read : Reader Header := do
  let (_, _, pool) ← readFront
  let flags ← Reader.u2
  let thisClass ← Reader.u2
  let name ← Reader.lift (pool.className thisClass)
  let superClass ← Reader.u2
  let superName ← Reader.lift (superNameOf pool superClass)
  let interfaceCount ← Reader.u2
  let interfaces ← Reader.times interfaceCount.toNat do
    let index ← Reader.u2
    Reader.lift (pool.className index)
  return ⟨flags, name, superName, interfaces⟩

/-- The header at the start of a byte string. -/
def parse (bs : Bytes) : Except Fault Header := Reader.eval read bs

end Header

end ClassFile

end Jarwright
