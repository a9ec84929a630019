import Jarwright.Proofs.ClassFile.Codec
import Jarwright.Proofs.ClassFile.Layout

/-!
# The two directions of the class-file format

`ClassFile.Writable` says of a class file what its written form needs: the layout of the pool,
counts and lengths that fit their widths, and a name of the class that resolves. It asks nothing of
the table that finds constants. `encode_parse_lossless` states both directions for class files and
for bodies of methods:

* what is read can be written, and its written form is the bytes it was read from;
* a class file is read back, field by field and slot by slot, exactly if it can be written.
-/

namespace Jarwright

open ClassFile Reader ConstantPool

namespace ClassFile

/-- A class file whose written form says everything about it. -/
structure Writable (c : ClassFile) : Prop where
  pool : c.pool.Writable
  interfaces : Counted (fun _ => True) c.interfaces
  fields : Counted Member.Fits c.fields
  methods : Counted Member.Fits c.methods
  attributes : Counted Attribute.Fits c.attributes
  named : ∃ name, c.name = .ok name

theorem writable_of_parse {bs : Bytes} {c : ClassFile} (h : parse bs = .ok c) : c.Writable := by
  obtain ⟨hfits, -⟩ := of_parse h
  obtain ⟨_, -, -, -, hname⟩ := parse_eq_ok.1 h
  exact ⟨hfits.pool.writable, hfits.interfaces, hfits.fields, hfits.methods, hfits.attributes,
    hname⟩

/-- The written form of a class file does not depend on the table of its pool, so the table can be
exchanged for one that finds nothing. -/
theorem Writable.exists_parse_encode {c : ClassFile} (h : c.Writable) :
    ∃ pool, parse c.encode = .ok { c with pool } ∧ pool.places = c.pool.places := by
  obtain ⟨name, hname⟩ := h.named
  let plain : ClassFile := { c with pool := ⟨c.pool.entries, ∅⟩ }
  have hfits : plain.Fits :=
    ⟨h.pool.wellFormed, h.interfaces, h.fields, h.methods, h.attributes⟩
  have hplain : plain.name = .ok name := name_of_places rfl hname
  obtain ⟨pool, hparse, -, hplaces⟩ := ClassFile.exists_parse_encode hfits hplain
  exact ⟨pool, hparse, hplaces⟩

/-- A class file that is read back, up to the table of its pool, can be written. -/
theorem writable_of_parse_encode {c : ClassFile} {pool : ConstantPool}
    (hparse : parse c.encode = .ok { c with pool }) (hplaces : pool.places = c.pool.places) :
    c.Writable := by
  have h := writable_of_parse hparse
  obtain ⟨name, hname⟩ := h.named
  have hname' : c.name = .ok name :=
    @name_of_places { c with pool } c.pool name hplaces.symm hname
  exact ⟨h.pool.of_places hplaces.symm, h.interfaces, h.fields, h.methods, h.attributes, name,
    hname'⟩

/-- **The format loses nothing.**  A class file that is read can be written, and its written form is
the bytes it was read from; a class file that can be written, and no other, is read back with the
same fields and the same slots of its pool. Bodies of methods are read from their written forms and
from nothing else. -/
theorem encode_parse_lossless :
    (∀ (bs : Bytes) (c : ClassFile), parse bs = .ok c → c.Writable ∧ c.encode = bs)
    ∧ (∀ c : ClassFile, c.Writable
        ↔ ∃ pool : ConstantPool, parse c.encode = .ok { c with pool } ∧ pool.places = c.pool.places)
    ∧ ∀ (payload : Bytes) (body : Code),
      Code.parse payload = .ok body ↔ body.Fits ∧ body.encode = payload := by
  refine ⟨fun bs c h => ⟨writable_of_parse h, (of_parse h).2.symm⟩, fun c => ⟨?_, ?_⟩, ?_⟩
  · exact Writable.exists_parse_encode
  · rintro ⟨pool, hparse, hplaces⟩
    exact writable_of_parse_encode hparse hplaces
  · intro payload body
    rw [Code.parse_eq_ok, eq_comm (a := payload)]

/-- A body with one handler and one attribute. -/
def handledBody : Code where
  maxStack := 2
  maxLocals := 1
  bytecode := [0x2a, 0xb1]
  handlers := [⟨0, 1, 1, 0⟩]
  attributes := [⟨8, [0, 0]⟩]

/-- The class `a`, whose pool has two wide constants, with a method that has a body. The table of
its pool knows nothing. -/
def wideClass : ClassFile where
  minor := 0
  major := 52
  pool := ⟨#[.unusable, .utf8 [97], .classRef 1, .long (-7), .unusable, .double 9, .unusable,
    .utf8 [67, 111, 100, 101], .utf8 [88]], ∅⟩
  flags := 0x21
  thisClass := 2
  superClass := 0
  interfaces := [2]
  fields := []
  methods := [⟨1, 1, 1, [⟨7, handledBody.encode⟩]⟩]
  attributes := []

theorem writable_wideClass : wideClass.Writable where
  pool := by
    refine ⟨⟨rfl, ?_, ?_⟩, by decide⟩
    · simp [places, wideClass, gapped_cons, gapped_nil, Constant.slots]
    · intro bytes h
      rcases (by simpa [places, wideClass] using h : bytes = [97] ∨ bytes = [67, 111, 100, 101]
        ∨ bytes = [88]) with rfl | rfl | rfl <;> decide
  interfaces := ⟨by decide, fun _ _ => trivial⟩
  fields := ⟨by decide, by simp [wideClass]⟩
  methods := by
    refine ⟨by decide, ?_⟩
    simp only [wideClass, List.mem_singleton, forall_eq]
    refine ⟨by decide, ?_⟩
    simp only [List.mem_singleton, forall_eq]
    exact (by decide +kernel : handledBody.encode.length < UInt32.size)
  attributes := ⟨by decide, by simp [wideClass]⟩
  named := ⟨"a", className_eq_ok.2 ⟨1, rfl, utf8_eq_ok.2 ⟨[97], rfl, by decide⟩⟩⟩

theorem encode_parse_lossless_wideClass :
    wideClass.Writable ∧ handledBody.Fits
      ∧ (∃ c, parse wideClass.encode = .ok c ∧ c.encode = wideClass.encode
        ∧ c.pool.places = wideClass.pool.places ∧ c.methods = wideClass.methods)
      ∧ Code.parse handledBody.encode = .ok handledBody := by
  have hbody : handledBody.Fits := by
    refine ⟨by decide, ⟨by decide, fun _ _ => trivial⟩, by decide, ?_⟩
    simp only [handledBody, List.mem_singleton, forall_eq]
    exact (by decide : 2 < UInt32.size)
  obtain ⟨pool, hparse, hplaces⟩ := (encode_parse_lossless.2.1 wideClass).1 writable_wideClass
  have hback := (encode_parse_lossless.1 _ _ hparse).2
  exact ⟨writable_wideClass, hbody, ⟨_, hparse, hback, hplaces, rfl⟩,
    (encode_parse_lossless.2.2 _ _).2 ⟨hbody, rfl⟩⟩

end ClassFile

end Jarwright
