import Jarwright.Proofs.ClassFile.Reading
import Jarwright.ClassFile.Attribute
import Jarwright.ClassFile.Basic

/-!
# Written structures and what reads them

`Fits` says of each structure that its counts and lengths fit the width on which they are written.
The reader of a structure succeeds on exactly the written forms of those that fit:
`Constant.read_eq_ok`, `Attribute.read_eq_ok`, `Member.read_eq_ok`, `Code.read_eq_ok`.
-/

namespace Jarwright.ClassFile

/-! ## Constants -/

namespace Constant

/-- A constant that has a written form: a usable one whose text is not too long. -/
def Fits : Constant → Prop
  | unusable => False
  | utf8 bytes => bytes.length < UInt16.size
  | _ => True

theorem read_eq_ok {bs rest : Bytes} {c : Constant} :
    read bs = .ok c rest ↔ c.Fits ∧ bs = c.encode ++ rest := by
  simp only [read, bind_eq_ok, Reader.u1_eq_ok]
  constructor
  · rintro ⟨tag, mid, rfl, h⟩
    generalize htag : tag.toNat = n at h
    obtain rfl : tag = UInt8.ofNat n := by rw [← htag, UInt8.ofNat_toNat]
    unfold readContent at h
    split at h
    case h_1 =>
      simp only [bind_eq_ok, Reader.u2_eq_ok, Reader.take_eq_ok, pure_eq_ok] at h
      obtain ⟨size, _, rfl, bytes, _, ⟨hlen, rfl⟩, rfl, rfl⟩ := h
      have hfit : bytes.length < UInt16.size := hlen ▸ size.toNat_lt
      refine ⟨hfit, ?_⟩
      simp [encode, putU2, hlen]
    case h_18 => exact absurd h throw_ne_ok
    -- the other tags are followed by one number or by two
    all_goals
      simp at h
      first
        | obtain ⟨_, rfl, rfl⟩ := h; simp [Fits, encode]
        | obtain ⟨_, _, rfl, _, rfl, rfl⟩ := h; simp [Fits, encode]
  · rintro ⟨hfit, rfl⟩
    cases c with
    | unusable => exact hfit.elim
    | utf8 bytes =>
      have hlen : (UInt16.ofNat bytes.length).toNat = bytes.length :=
        UInt16.toNat_ofNat_of_lt' hfit
      have hput : Bytes.bigEndian 2 bytes.length = putU2 (UInt16.ofNat bytes.length) := by
        rw [putU2, hlen]
      refine ⟨_, _, rfl, ?_⟩
      simp [readContent, hput, and_assoc, hlen]
    | integer value =>
      refine ⟨_, _, rfl, ?_⟩
      simp only [UInt8.reduceToNat, readContent, bind_eq_ok, Reader.u4_eq_ok, pure_eq_ok]
      exact ⟨_, _, rfl, rfl, rfl⟩
    | long value =>
      refine ⟨_, _, rfl, ?_⟩
      simp only [UInt8.reduceToNat, readContent, bind_eq_ok, Reader.u8_eq_ok, pure_eq_ok]
      exact ⟨_, _, rfl, rfl, rfl⟩
    | _ =>
      refine ⟨_, _, rfl, ?_⟩
      simp [readContent, and_assoc]

end Constant

open Reader (Counted)

/-! ## Attributes -/

namespace Attribute

/-- An attribute whose payload is not too long. -/
def Fits (a : Attribute) : Prop := a.payload.length < UInt32.size

theorem read_eq_ok {bs rest : Bytes} {a : Attribute} :
    read bs = .ok a rest ↔ a.Fits ∧ bs = a.encode ++ rest := by
  rw [read, bind_eq_ok]
  simp only [Reader.u2_eq_ok, Reader.block_bind_eq_ok, pure_eq_ok]
  constructor
  · rintro ⟨name, _, rfl, payload, _, hfit, rfl, rfl, rfl⟩
    exact ⟨hfit, by simp [encode]⟩
  · rintro ⟨hfit, rfl⟩
    exact ⟨a.name, _, by simp [encode], a.payload, rest, hfit, rfl, rfl, rfl⟩

theorem readAll_eq_ok {bs rest : Bytes} {as : List Attribute} :
    readAll bs = .ok as rest ↔ Counted Fits as ∧ bs = encodeAll as ++ rest :=
  Reader.counted_eq_ok read_eq_ok

end Attribute

/-! ## Bodies of methods -/

theorem Handler.read_eq_ok {bs rest : Bytes} {h : Handler} :
    Handler.read bs = .ok h rest ↔ True ∧ bs = h.encode ++ rest := by
  obtain ⟨start, stop, target, catchType⟩ := h
  simp only [Handler.read, bind_eq_ok, Reader.u2_eq_ok, pure_eq_ok, Handler.encode,
    Handler.mk.injEq, List.append_assoc, true_and]
  constructor
  · rintro ⟨_, _, rfl, _, _, rfl, _, _, rfl, _, _, rfl, ⟨rfl, rfl, rfl, rfl⟩, rfl⟩
    rfl
  · rintro rfl
    exact ⟨_, _, rfl, _, _, rfl, _, _, rfl, _, _, rfl, ⟨rfl, rfl, rfl, rfl⟩, rfl⟩

namespace Code

/-- A body whose bytecode, handlers and attributes are not too long. -/
structure Fits (c : Code) : Prop where
  bytecode : c.bytecode.length < UInt32.size
  handlers : Counted (fun _ => True) c.handlers
  attributes : Counted Attribute.Fits c.attributes

/-- The bytes of a body are a body, and nothing else is. -/
theorem parse_eq_ok {payload : Bytes} {c : Code} :
    parse payload = .ok c ↔ c.Fits ∧ payload = c.encode := by
  obtain ⟨maxStack, maxLocals, bytecode, handlers, attributes⟩ := c
  simp only [parse, Reader.eval_eq_ok, read, Reader.whole_eq_ok, bind_eq_ok, Reader.u2_eq_ok,
    ↓Reader.block_bind_eq_ok, ↓Reader.counted_bind_eq_ok Handler.read_eq_ok,
    Attribute.readAll_eq_ok, pure_eq_ok, encode, Code.mk.injEq]
  constructor
  · rintro ⟨_, ⟨_, _, rfl, _, _, rfl, _, _, hcode, rfl, _, _, hhandlers, rfl, _, _,
      ⟨hattributes, rfl⟩, ⟨rfl, rfl, rfl, rfl, rfl⟩, rfl⟩, rfl⟩
    exact ⟨⟨hcode, hhandlers, hattributes⟩, by simp⟩
  · rintro ⟨⟨hcode, hhandlers, hattributes⟩, rfl⟩
    refine ⟨_, ⟨maxStack, _, ?_, maxLocals, _, rfl, bytecode, _, hcode, rfl, handlers, _, hhandlers,
      rfl, attributes, [], ⟨hattributes, rfl⟩, ⟨rfl, rfl, rfl, rfl, rfl⟩, rfl⟩, rfl⟩
    simp

end Code

/-! ## Members -/

namespace Member

/-- A member whose attributes are not too many or too long. -/
def Fits (m : Member) : Prop := Counted Attribute.Fits m.attributes

theorem read_eq_ok {bs rest : Bytes} {m : Member} :
    read bs = .ok m rest ↔ m.Fits ∧ bs = m.encode ++ rest := by
  obtain ⟨flags, name, descriptor, attributes⟩ := m
  simp only [read, bind_eq_ok, Reader.u2_eq_ok, Attribute.readAll_eq_ok, pure_eq_ok, encode,
    Member.mk.injEq, List.append_assoc]
  constructor
  · rintro ⟨_, _, rfl, _, _, rfl, _, _, rfl, _, _, ⟨hfit, rfl⟩, ⟨rfl, rfl, rfl, rfl⟩, rfl⟩
    exact ⟨hfit, rfl⟩
  · rintro ⟨hfit, rfl⟩
    exact ⟨_, _, rfl, _, _, rfl, _, _, rfl, _, _, ⟨hfit, rfl⟩, ⟨rfl, rfl, rfl, rfl⟩, rfl⟩

theorem readAll_eq_ok {bs rest : Bytes} {ms : List Member} :
    readAll bs = .ok ms rest ↔ Counted Fits ms ∧ bs = putList encode ms ++ rest :=
  Reader.counted_eq_ok read_eq_ok

end Member

end Jarwright.ClassFile
