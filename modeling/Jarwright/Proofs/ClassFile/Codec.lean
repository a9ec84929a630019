import Jarwright.Proofs.ClassFile.Interning

/-!
# Class files and their bytes

`ClassFile.Fits` says that a class file has a well-formed pool and that none of its lists and
payloads is too long. `of_parse` and `exists_parse_encode` are the two directions of the format:

* the bytes of a class file that is read are its written form, and it fits;
* a class file that fits, and whose own name resolves, is read back. The slots of its pool are the
  same; only the table that finds constants is built anew.
-/

namespace Jarwright

open ClassFile Reader

namespace ClassFile

/-- A class file that can be written without loss. -/
structure Fits (c : ClassFile) : Prop where
  pool : c.pool.WellFormed
  interfaces : Counted (fun _ => True) c.interfaces
  fields : Counted Member.Fits c.fields
  methods : Counted Member.Fits c.methods
  attributes : Counted Attribute.Fits c.attributes

/-- What is written behind the pool. -/
def encodeBack (c : ClassFile) : Bytes :=
  putU2 c.flags ++ (putU2 c.thisClass ++ (putU2 c.superClass ++ (putList putU2 c.interfaces
    ++ (putList Member.encode c.fields ++ (putList Member.encode c.methods
      ++ Attribute.encodeAll c.attributes)))))

theorem encode_eq (c : ClassFile) :
    c.encode = putU4 magic ++ (putU2 c.minor ++ (putU2 c.major ++ (c.pool.encode
      ++ c.encodeBack))) := by
  simp only [encode, encodeBack, List.append_assoc]

theorem lift_eq_ok {α : Type} {r : Except Fault α} {bs rest : Bytes} {x : α} :
    Reader.lift r bs = .ok x rest ↔ r = .ok x ∧ bs = rest := by
  cases r with
  | ok y => simp [Reader.lift]
  | error e => simp [Reader.lift]

theorem readFront_eq_ok {bs rest : Bytes} {minor major : UInt16} {pool : ConstantPool} :
    readFront bs = .ok (minor, major, pool) rest
      ↔ ∃ mid, bs = putU4 magic ++ (putU2 minor ++ (putU2 major ++ mid))
        ∧ ConstantPool.read mid = .ok pool rest := by
  simp only [readFront, bind_eq_ok, u4_eq_ok]
  constructor
  · rintro ⟨m, mid, rfl, h⟩
    split at h
    · obtain ⟨_, _, hthrow, -⟩ := bind_eq_ok.1 h
      exact absurd hthrow throw_ne_ok
    · rename_i hmagic
      obtain rfl : m = magic := Decidable.not_not.1 hmagic
      simp only [bind_eq_ok, pure_eq_ok, u2_eq_ok] at h
      obtain ⟨_, _, rfl, _, _, rfl, _, _, hpool, h, rfl⟩ := h
      cases h
      exact ⟨_, rfl, hpool⟩
  · rintro ⟨mid, rfl, hpool⟩
    refine ⟨magic, _, rfl, ?_⟩
    simp only [ne_eq, not_true_eq_false, if_false, bind_eq_ok, pure_eq_ok, u2_eq_ok]
    exact ⟨minor, _, rfl, major, mid, rfl, pool, rest, hpool, rfl, rfl⟩

theorem u2_counted {bs rest : Bytes} {n : UInt16} :
    u2 bs = .ok n rest ↔ True ∧ bs = putU2 n ++ rest := by
  rw [u2_eq_ok, true_and]

/-- A class file is read from its front, its pool, and what is written behind the pool. -/
theorem parse_eq_ok {bs : Bytes} {c : ClassFile} :
    parse bs = .ok c ↔ ∃ mid, bs = putU4 magic ++ (putU2 c.minor ++ (putU2 c.major ++ mid))
      ∧ ConstantPool.read mid = .ok c.pool c.encodeBack
      ∧ (Counted (fun _ => True) c.interfaces ∧ Counted Member.Fits c.fields
        ∧ Counted Member.Fits c.methods ∧ Counted Attribute.Fits c.attributes)
      ∧ ∃ name, c.name = .ok name := by
  obtain ⟨minor, major, pool, flags, thisClass, superClass, interfaces, fields, methods,
    attributes⟩ := c
  simp only [parse, eval_eq_ok, read, bind_eq_ok, u2_eq_ok, ↓counted_bind_eq_ok u2_counted,
    Member.readAll_eq_ok, Attribute.readAll_eq_ok, expectEnd_eq_ok, lift_eq_ok, pure_eq_ok,
    encodeBack]
  constructor
  · rintro ⟨_, ⟨minor, major, pool⟩, _, hfront, h⟩
    obtain ⟨mid, rfl, hpool⟩ := readFront_eq_ok.1 hfront
    obtain ⟨_, _, rfl, _, _, rfl, _, _, rfl, _, _, hinterfaces, rfl, _, _, ⟨hfields, rfl⟩, _, _,
      ⟨hmethods, rfl⟩, _, _, ⟨hattributes, rfl⟩, _, _, ⟨rfl, rfl⟩, name, _, ⟨hname, rfl⟩, h,
      rfl⟩ := h
    cases h
    refine ⟨mid, rfl, ?_, ⟨hinterfaces, hfields, hmethods, hattributes⟩, name, hname⟩
    simpa using hpool
  · rintro ⟨mid, rfl, hpool, ⟨hinterfaces, hfields, hmethods, hattributes⟩, name, hname⟩
    refine ⟨[], (minor, major, pool), _, readFront_eq_ok.2 ⟨mid, rfl, hpool⟩, flags, _, rfl,
      thisClass, _, rfl, superClass, _, rfl, interfaces, _, hinterfaces, rfl, fields, _,
      ⟨hfields, rfl⟩, methods, _, ⟨hmethods, rfl⟩, attributes, [], ⟨hattributes, ?_⟩, ?_⟩
    · rw [List.append_nil]
    · exact ⟨(), [], ⟨rfl, rfl⟩, name, [], ⟨hname, rfl⟩, rfl, rfl⟩

/-- The bytes of a class file that is read are its written form. -/
theorem of_parse {bs : Bytes} {c : ClassFile} (h : parse bs = .ok c) :
    c.Fits ∧ bs = c.encode := by
  obtain ⟨mid, rfl, hread, ⟨hinterfaces, hfields, hmethods, hattributes⟩, -⟩ := parse_eq_ok.1 h
  obtain ⟨hpool, rfl⟩ := ConstantPool.of_read hread
  exact ⟨⟨hpool, hinterfaces, hfields, hmethods, hattributes⟩, (encode_eq c).symm⟩

/-- The name of a class depends on the slots of its pool alone. -/
theorem name_of_places {c : ClassFile} {pool : ConstantPool} {name : String}
    (hplaces : pool.places = c.pool.places) (h : c.name = .ok name) :
    ({ c with pool } : ClassFile).name = .ok name := by
  obtain ⟨text, hslot, htext⟩ := ConstantPool.className_eq_ok.1 h
  obtain ⟨bytes, hbytes, hdecode⟩ := ConstantPool.utf8_eq_ok.1 htext
  refine ConstantPool.className_eq_ok.2 ⟨text, hplaces ▸ hslot, ?_⟩
  exact ConstantPool.utf8_eq_ok.2 ⟨bytes, hplaces ▸ hbytes, hdecode⟩

/-- A class file that fits is read back with the same slots and the same fields. -/
theorem exists_parse_encode {c : ClassFile} {name : String} (h : c.Fits)
    (hname : c.name = .ok name) :
    ∃ pool, parse c.encode = .ok { c with pool } ∧ pool.WellFormed
      ∧ pool.places = c.pool.places := by
  obtain ⟨pool, hread, hplaces⟩ := h.pool.exists_read_encode c.encodeBack
  refine ⟨pool, parse_eq_ok.2 ⟨c.pool.encode ++ c.encodeBack, encode_eq c, hread, ?_, ?_⟩,
    (ConstantPool.of_read hread).1, hplaces⟩
  · exact ⟨h.interfaces, h.fields, h.methods, h.attributes⟩
  · exact ⟨name, name_of_places hplaces hname⟩

/-- A class file that fits, with a pool that was read, is read back as it is. -/
theorem parse_encode_of_parse {bs : Bytes} {c c' : ClassFile} {name : String}
    (hc : parse bs = .ok c) (hpool : c'.pool = c.pool) (h : c'.Fits) (hname : c'.name = .ok name) :
    parse c'.encode = .ok c' := by
  obtain ⟨mid, -, hread, -⟩ := parse_eq_ok.1 hc
  refine parse_eq_ok.2 ⟨c'.pool.encode ++ c'.encodeBack, encode_eq c', ?_, ?_, name, hname⟩
  · rw [hpool]
    exact ConstantPool.read_encode_of_read hread _
  · exact ⟨h.interfaces, h.fields, h.methods, h.attributes⟩

end ClassFile

end Jarwright
