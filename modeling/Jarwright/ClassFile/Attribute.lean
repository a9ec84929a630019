import Jarwright.ClassFile.ConstantPool

/-!
# Attributes

An attribute is kept as its raw payload behind the index of its name. The body of a method is the
one attribute with a structure of its own, `Code`; its bytecode stays a byte string.
-/

namespace Jarwright.ClassFile

/-- A named payload. -/
structure Attribute where
  name : UInt16
  payload : Bytes
  deriving DecidableEq, Repr, Inhabited

namespace Attribute

/-- An attribute behind its name and the length of its payload. -/
def encode (a : Attribute) : Bytes :=
  putU2 a.name ++ Bytes.bigEndian 4 a.payload.length ++ a.payload

/-- Reads one attribute. -/
def read : Reader Attribute := do
  let name ← Reader.u2
  let length ← Reader.u4
  let payload ← Reader.take length.toNat
  return ⟨name, payload⟩

/-- Reads a counted list of attributes. -/
def readAll : Reader (List Attribute) := do
  let count ← Reader.u2
  Reader.times count.toNat read

/-- A counted list of attributes. -/
def encodeAll (attributes : List Attribute) : Bytes := putList encode attributes

end Attribute

/-- A range of bytecode, where its exceptions go, and which class of them. -/
structure Handler where
  start : UInt16
  stop : UInt16
  target : UInt16
  catchType : UInt16
  deriving DecidableEq, Repr, Inhabited

namespace Handler

/-- Reads one handler. -/
def read : Reader Handler := do
  return ⟨← Reader.u2, ← Reader.u2, ← Reader.u2, ← Reader.u2⟩

/-- The four numbers of a handler. -/
def encode (h : Handler) : Bytes :=
  putU2 h.start ++ putU2 h.stop ++ putU2 h.target ++ putU2 h.catchType

end Handler

/-- The body of a method. -/
structure Code where
  maxStack : UInt16
  maxLocals : UInt16
  bytecode : Bytes
  handlers : List Handler
  attributes : List Attribute
  deriving DecidableEq, Repr, Inhabited

namespace Code

/-- Reads a body that uses up its bytes. -/
def read : Reader Code := Reader.whole (.badLayout .code) do
  let maxStack ← Reader.u2
  let maxLocals ← Reader.u2
  let length ← Reader.u4
  let bytecode ← Reader.take length.toNat
  let handlerCount ← Reader.u2
  let handlers ← Reader.times handlerCount.toNat Handler.read
  let attributes ← Attribute.readAll
  return ⟨maxStack, maxLocals, bytecode, handlers, attributes⟩

/-- The body that a payload holds. -/
def parse (payload : Bytes) : Except Fault Code := Reader.eval read payload

/-- The payload that holds a body. -/
def encode (c : Code) : Bytes :=
  putU2 c.maxStack ++ putU2 c.maxLocals ++ Bytes.bigEndian 4 c.bytecode.length ++ c.bytecode
    ++ putList Handler.encode c.handlers ++ Attribute.encodeAll c.attributes

end Code

end Jarwright.ClassFile
