import Std.Data.TreeMap
import Jarwright.ClassFile.Reader

/-!
# Constants

An entry of a constant pool refers to other entries by index. Numbers with a fraction are kept as
bit patterns and texts as their encoded bytes, so that every constant is written as it was read.

* `Constant.slots` is the number of places in the pool that a constant takes;
* `Constant.key` tells constants apart by numbers, which puts them in an order;
* `Constant.encode` writes a constant behind its tag, `Constant.read` reads one.
-/

namespace Jarwright.ClassFile

/-- An entry of a constant pool. -/
inductive Constant where
  /-- Slot 0, and the slot after a constant of two slots. -/
  | unusable
  | utf8 (bytes : Bytes)
  | integer (value : Int32)
  | float (bits : UInt32)
  | long (value : Int64)
  | double (bits : UInt64)
  | classRef (name : UInt16)
  | string (text : UInt16)
  | fieldRef (owner member : UInt16)
  | methodRef (owner member : UInt16)
  | interfaceMethodRef (owner member : UInt16)
  | nameAndType (name descriptor : UInt16)
  | methodHandle (kind : UInt8) (reference : UInt16)
  | methodType (descriptor : UInt16)
  | dynamic (bootstrap member : UInt16)
  | invokeDynamic (bootstrap member : UInt16)
  | moduleRef (name : UInt16)
  | packageRef (name : UInt16)
  deriving DecidableEq, Repr, Inhabited

namespace Constant

/-- The kind of a constant. -/
def kind : Constant → Kind
  | unusable => .unusable
  | utf8 _ => .utf8
  | integer _ => .integer
  | float _ => .float
  | long _ => .long
  | double _ => .double
  | classRef _ => .classRef
  | string _ => .string
  | fieldRef _ _ => .fieldRef
  | methodRef _ _ => .methodRef
  | interfaceMethodRef _ _ => .interfaceMethodRef
  | nameAndType _ _ => .nameAndType
  | methodHandle _ _ => .methodHandle
  | methodType _ => .methodType
  | dynamic _ _ => .dynamic
  | invokeDynamic _ _ => .invokeDynamic
  | moduleRef _ => .moduleRef
  | packageRef _ => .packageRef

/-- Numbers of eight bytes take two slots, everything else one. -/
def slots : Constant → Nat
  | long _ => 2
  | double _ => 2
  | _ => 1

theorem one_le_slots (c : Constant) : 1 ≤ c.slots := by
  cases c <;> simp [slots]

theorem slots_le_two (c : Constant) : c.slots ≤ 2 := by
  cases c <;> simp [slots]

/-- The tag of a constant and its content as numbers. -/
def key : Constant → List Nat
  | unusable => []
  | utf8 bytes => 1 :: bytes.map UInt8.toNat
  | integer value => [3, value.toBitVec.toNat]
  | float bits => [4, bits.toNat]
  | long value => [5, value.toBitVec.toNat]
  | double bits => [6, bits.toNat]
  | classRef name => [7, name.toNat]
  | string text => [8, text.toNat]
  | fieldRef owner member => [9, owner.toNat, member.toNat]
  | methodRef owner member => [10, owner.toNat, member.toNat]
  | interfaceMethodRef owner member => [11, owner.toNat, member.toNat]
  | nameAndType name descriptor => [12, name.toNat, descriptor.toNat]
  | methodHandle kind reference => [15, kind.toNat, reference.toNat]
  | methodType descriptor => [16, descriptor.toNat]
  | dynamic bootstrap member => [17, bootstrap.toNat, member.toNat]
  | invokeDynamic bootstrap member => [18, bootstrap.toNat, member.toNat]
  | moduleRef name => [19, name.toNat]
  | packageRef name => [20, name.toNat]

theorem key_injective {c d : Constant} (h : c.key = d.key) : c = d := by
  have hbytes : ∀ l l' : Bytes, l.map UInt8.toNat = l'.map UInt8.toNat ↔ l = l' :=
    fun _ _ => List.map_inj_right fun _ _ => UInt8.toNat_inj.1
  cases c <;> cases d
  all_goals
    simp [key, hbytes, UInt8.toNat_inj, UInt16.toNat_inj, UInt32.toNat_inj, UInt64.toNat_inj,
      BitVec.toNat_inj, Int32.toBitVec_inj, Int64.toBitVec_inj] at h ⊢ <;> exact h

instance : Ord Constant := ⟨compareOn key⟩

instance : Std.TransOrd Constant := inferInstanceAs (Std.TransCmp (compareOn key))

instance : Std.LawfulEqOrd Constant where
  eq_of_compare h := key_injective (Std.LawfulEqOrd.eq_of_compare h)

/-- A constant behind its tag; an unusable slot has no bytes. -/
def encode : Constant → Bytes
  | unusable => []
  | utf8 bytes => 1 :: Bytes.bigEndian 2 bytes.length ++ bytes
  | integer value => 3 :: putU4 value.toUInt32
  | float bits => 4 :: putU4 bits
  | long value => 5 :: putU8 value.toUInt64
  | double bits => 6 :: putU8 bits
  | classRef name => 7 :: putU2 name
  | string text => 8 :: putU2 text
  | fieldRef owner member => 9 :: putU2 owner ++ putU2 member
  | methodRef owner member => 10 :: putU2 owner ++ putU2 member
  | interfaceMethodRef owner member => 11 :: putU2 owner ++ putU2 member
  | nameAndType name descriptor => 12 :: putU2 name ++ putU2 descriptor
  | methodHandle kind reference => 15 :: kind :: putU2 reference
  | methodType descriptor => 16 :: putU2 descriptor
  | dynamic bootstrap member => 17 :: putU2 bootstrap ++ putU2 member
  | invokeDynamic bootstrap member => 18 :: putU2 bootstrap ++ putU2 member
  | moduleRef name => 19 :: putU2 name
  | packageRef name => 20 :: putU2 name

/-- Reads the content of a constant with the given tag. -/
def readContent : Nat → Reader Constant
  | 1 => do
    let size ← Reader.u2
    return utf8 (← Reader.take size.toNat)
  | 3 => return integer (← Reader.u4).toInt32
  | 4 => return float (← Reader.u4)
  | 5 => return long (← Reader.u8).toInt64
  | 6 => return double (← Reader.u8)
  | 7 => return classRef (← Reader.u2)
  | 8 => return string (← Reader.u2)
  | 9 => return fieldRef (← Reader.u2) (← Reader.u2)
  | 10 => return methodRef (← Reader.u2) (← Reader.u2)
  | 11 => return interfaceMethodRef (← Reader.u2) (← Reader.u2)
  | 12 => return nameAndType (← Reader.u2) (← Reader.u2)
  | 15 => return methodHandle (← Reader.u1) (← Reader.u2)
  | 16 => return methodType (← Reader.u2)
  | 17 => return dynamic (← Reader.u2) (← Reader.u2)
  | 18 => return invokeDynamic (← Reader.u2) (← Reader.u2)
  | 19 => return moduleRef (← Reader.u2)
  | 20 => return packageRef (← Reader.u2)
  | tag => throw (.unknownTag (UInt8.ofNat tag))

/-- Reads a constant behind its tag. -/
def read : Reader Constant := do
  readContent (← Reader.u1).toNat

end Constant

end Jarwright.ClassFile
