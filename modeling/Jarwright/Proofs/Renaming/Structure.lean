import Jarwright.Proofs.Renaming.Symbols

/-!
# What a renaming keeps of a class

A renaming changes names and leaves out debug data; the structure of a class stays. This file states
that without the indices that a renaming exchanges, place by place:

* `AttributesKept` compares two lists of attributes: the second is the first without the debug
  attributes of its place, and a payload is the same unless its name is one of those that are
  rewritten there;
* `CodeKept` and `RecordKept` do so inside the payloads that have attributes of their own;
* `StructureKept` puts them together for a class, and `rename_structure` proves it of a renaming.

A declared member is described by `ClassFile.declaration`: the class itself as the owner, the name
and the descriptor.
-/

namespace Jarwright.ClassFile

/-- What a class declares with a name and a descriptor. -/
def declaration (c : ClassFile) (name descriptor : UInt16) : Except Fault MemberName := do
  let owner ← c.name
  let name ← c.pool.utf8 name
  let descriptor ← c.pool.utf8 descriptor
  return ⟨owner, name, descriptor⟩

theorem declaration_eq_ok {c : ClassFile} {n d : UInt16} {m : MemberName} :
    c.declaration n d = .ok m
      ↔ c.name = .ok m.owner ∧ c.pool.utf8 n = .ok m.name ∧ c.pool.utf8 d = .ok m.descriptor := by
  simp only [declaration, except_bind_eq_ok, except_pure_eq_ok]
  constructor
  · rintro ⟨owner, howner, name, hname, descriptor, hdescriptor, rfl⟩
    exact ⟨howner, hname, hdescriptor⟩
  · rintro ⟨howner, hname, hdescriptor⟩
    exact ⟨_, howner, _, hname, _, hdescriptor, rfl⟩

end Jarwright.ClassFile

namespace Jarwright.Renaming

open ClassFile ConstantPool

/-! ## Attributes by place -/

/-- The places in which attributes stand. -/
inductive Place where
  | classFile | field | method | code | component
  deriving DecidableEq, Repr, Inhabited

namespace Place

/-- The names of the debug attributes of a place. -/
def stripped : Place → List String
  | classFile => ["SourceFile", "SourceDebugExtension"]
  | code => ["LineNumberTable", "LocalVariableTable", "LocalVariableTypeTable"]
  | _ => []

/-- The names of the attributes whose payloads may change in a place. -/
def rewritten : Place → List String
  | classFile => "InnerClasses" :: "EnclosingMethod" :: "Record" :: Context.leafNames
  | method => "Code" :: "AnnotationDefault" :: Context.leafNames
  | _ => Context.leafNames

/-- Whether an attribute stays in a place. -/
def keeps (place : Place) (pool : ConstantPool) (a : Attribute) : Bool :=
  match pool.utf8 a.name with
  | .ok name => !place.stripped.contains name
  | .error _ => true

/-- The place of the attributes of a declared member. -/
def ofMember : MemberKind → Place
  | .field => field
  | .method => method

end Place

/-- An attribute before and after. Its name stays, and its payload too if it is not rewritten in its
place; `inside` compares the payloads of an attribute that has attributes inside. -/
structure AttributeKept (old new : ConstantPool) (place : Place)
    (inside : String → Bytes → Bytes → Prop) (a a' : Attribute) : Prop where
  name : a'.name = a.name
  resolved : ∃ name, old.utf8 a.name = .ok name ∧ new.utf8 a'.name = .ok name
    ∧ (name ∉ place.rewritten → a'.payload = a.payload) ∧ inside name a.payload a'.payload

/-- The attributes of a place after a renaming: those before, in order, without debug data. -/
def AttributesKept (old new : ConstantPool) (place : Place)
    (inside : String → Bytes → Bytes → Prop) (as as' : List Attribute) : Prop :=
  List.Forall₂ (AttributeKept old new place inside) (as.filter (place.keeps old)) as'

/-- Nothing to compare inside. -/
def NothingInside (_ : String) (_ _ : Bytes) : Prop := True

/-- A method body before and after: what runs is the same, and its attributes are kept. -/
def CodeKept (old new : ConstantPool) (name : String) (p p' : Bytes) : Prop :=
  name = "Code" → ∃ b b', Code.parse p = .ok b ∧ Code.parse p' = .ok b'
    ∧ b'.maxStack = b.maxStack ∧ b'.maxLocals = b.maxLocals ∧ b'.bytecode = b.bytecode
    ∧ b'.handlers = b.handlers
    ∧ AttributesKept old new .code NothingInside b.attributes b'.attributes

/-- A record before and after: it has as many components, and their attributes are kept. -/
def RecordKept (old new : ConstantPool) (name : String) (p p' : Bytes) : Prop :=
  name = "Record" → ∃ cs cs', Component.parseAll p = .ok cs ∧ Component.parseAll p' = .ok cs'
    ∧ List.Forall₂ (fun c c' : Component =>
        AttributesKept old new .component NothingInside c.attributes c'.attributes) cs cs'

/-- What to compare inside the attributes of a declared member. -/
def InsideMember (old new : ConstantPool) : MemberKind → String → Bytes → Bytes → Prop
  | .field => NothingInside
  | .method => CodeKept old new

/-! ## Members and classes -/

/-- A declared member before and after. -/
structure MemberKept (r : Resolver) (c c' : ClassFile) (kind : MemberKind) (m m' : Member) :
    Prop where
  flags : m'.flags = m.flags
  declared : ∃ old new, c.declaration m.name m.descriptor = .ok old
    ∧ renameMemberName r kind old = .ok new ∧ c'.declaration m'.name m'.descriptor = .ok new
  attributes : AttributesKept c.pool c'.pool (.ofMember kind) (InsideMember c.pool c'.pool kind)
    m.attributes m'.attributes

/-- A class before and after: the version, the flags and the place in the hierarchy are the same,
and so are the members in their order. -/
structure StructureKept (r : Resolver) (c c' : ClassFile) : Prop where
  minor : c'.minor = c.minor
  major : c'.major = c.major
  flags : c'.flags = c.flags
  thisClass : c'.thisClass = c.thisClass
  superClass : c'.superClass = c.superClass
  interfaces : c'.interfaces = c.interfaces
  fields : List.Forall₂ (MemberKept r c c' .field) c.fields c'.fields
  methods : List.Forall₂ (MemberKept r c c' .method) c.methods c'.methods
  attributes : AttributesKept c.pool c'.pool .classFile (RecordKept c.pool c'.pool) c.attributes
    c'.attributes

/-! ## From the relations of a renaming -/

namespace Context

variable {ctx : Context} {final : ConstantPool}

theorem AttributesRenamed.attributesKept (place : Place)
    {R inside : String → Bytes → Bytes → Prop} {as as' : List Attribute}
    (h : ctx.AttributesRenamed final place.stripped R as as')
    (hsame : ∀ {name p p'}, R name p p' → name ∉ place.rewritten → p' = p)
    (hinside : ∀ {name p p'}, R name p p' → inside name p p') :
    AttributesKept ctx.oldPool final place inside as as' := by
  induction h with
  | nil => exact .nil
  | dropped hname hstripped _ ih =>
    rw [AttributesKept, List.filter_cons_of_neg (by simp [Place.keeps, hname, hstripped])]
    exact ih
  | kept hname hstripped heq hname' hp _ ih =>
    rw [AttributesKept, List.filter_cons_of_pos (by simp [Place.keeps, hname, hstripped])]
    exact .cons ⟨heq, _, hname, hname', hsame hp, hinside hp⟩ ih

theorem LeafRenamed.eq_of_not_mem {site : Signature.Site} {name : String} {p p' : Bytes}
    (h : ctx.LeafRenamed final site name p p') (hname : name ∉ leafNames) : p' = p := by
  cases h with
  | signature _ => simp [leafNames] at hname
  | annotations h _ _ => rcases h with rfl | rfl <;> simp [leafNames] at hname
  | parameters h _ _ => rcases h with rfl | rfl <;> simp [leafNames] at hname
  | typeUses h _ _ => rcases h with rfl | rfl <;> simp [leafNames] at hname
  | other _ => rfl

theorem CodeRenamed.kept {p p' : Bytes} {b b' : Code} (hp : Code.parse p = .ok b)
    (hp' : Code.parse p' = .ok b') (h : ctx.CodeRenamed final b b') (name : String) :
    CodeKept ctx.oldPool final name p p' := by
  have hattributes : AttributesKept ctx.oldPool final .code NothingInside b.attributes
      b'.attributes :=
    h.attributes.attributesKept .code (fun h => h.eq_of_not_mem) (fun _ => trivial)
  exact fun _ => ⟨b, b', hp, hp', h.maxStack, h.maxLocals, h.bytecode, h.handlers, hattributes⟩

theorem MethodPayloadRenamed.kept {name : String} {p p' : Bytes}
    (h : ctx.MethodPayloadRenamed final name p p') :
    (name ∉ Place.method.rewritten → p' = p) ∧ CodeKept ctx.oldPool final name p p' := by
  cases h with
  | code hp hp' hcode => exact ⟨fun h => absurd (by simp [Place.rewritten]) h, hcode.kept hp hp' _⟩
  | annotationDefault _ =>
    exact ⟨fun h => absurd (by simp [Place.rewritten]) h, fun h => absurd h (by decide)⟩
  | leaf hcode _ h =>
    refine ⟨fun hname => h.eq_of_not_mem ?_, fun h => absurd h hcode⟩
    simp only [Place.rewritten, List.mem_cons, not_or] at hname
    exact hname.2.2

theorem ClassPayloadRenamed.kept {name : String} {p p' : Bytes}
    (h : ctx.ClassPayloadRenamed final name p p') :
    (name ∉ Place.classFile.rewritten → p' = p) ∧ RecordKept ctx.oldPool final name p p' := by
  cases h with
  | innerClasses _ _ =>
    exact ⟨fun h => absurd (by simp [Place.rewritten]) h, fun h => absurd h (by decide)⟩
  | enclosingMethod _ =>
    exact ⟨fun h => absurd (by simp [Place.rewritten]) h, fun h => absurd h (by decide)⟩
  | record hp hp' hcs =>
    refine ⟨fun h => absurd (by simp [Place.rewritten]) h, fun _ => ⟨_, _, hp, hp', ?_⟩⟩
    refine hcs.imp fun c c' hc => ?_
    exact hc.attributes.attributesKept .component (fun h => h.eq_of_not_mem) (fun _ => trivial)
  | leaf hinner henclosing hrecord h =>
    refine ⟨fun hname => h.eq_of_not_mem ?_, fun h => absurd h hrecord⟩
    simp only [Place.rewritten, List.mem_cons, not_or] at hname
    exact hname.2.2.2

theorem MemberPayloadRenamed.kept {kind : MemberKind} {name : String} {p p' : Bytes}
    (h : ctx.MemberPayloadRenamed final kind name p p') :
    (name ∉ (Place.ofMember kind).rewritten → p' = p)
      ∧ InsideMember ctx.oldPool final kind name p p' := by
  cases kind with
  | field => exact ⟨LeafRenamed.eq_of_not_mem h, trivial⟩
  | method => exact MethodPayloadRenamed.kept h

namespace ClassRenamed

variable {c c' : ClassFile}

/-- What a class declares gets its new form, and the class that declares it its new name. -/
theorem declaration (h : ctx.ClassRenamed c c') (hold : ctx.oldPool = c.pool)
    (howner : c.name = .ok ctx.owner) {kind : MemberKind} {n d n' d' : UInt16}
    (hnamed : ctx.DeclarationRenamed c'.pool kind n d n' d') :
    ∃ old new, c.declaration n d = .ok old ∧ renameMemberName ctx.resolver kind old = .ok new
      ∧ c'.declaration n' d' = .ok new := by
  obtain ⟨name, descriptor, newDescriptor, hnew, hn, hd⟩ := hnamed
  have hthis : ctx.oldPool.className c.thisClass = .ok ctx.owner := hold ▸ howner
  obtain ⟨newOwner, hmap, hthis'⟩ := h.pool.className hthis
  refine ⟨⟨ctx.owner, name, descriptor⟩,
    ⟨newOwner, ctx.memberName kind ctx.owner name descriptor, newDescriptor⟩, ?_, ?_, ?_⟩
  · exact declaration_eq_ok.2 ⟨howner, hold ▸ hn.before, hold ▸ hd.before⟩
  · simp only [renameMemberName, except_bind_eq_ok, except_pure_eq_ok]
    exact ⟨_, hmap, _, hnew, rfl⟩
  · refine declaration_eq_ok.2 ⟨?_, hn.after, hd.after⟩
    rw [ClassFile.name, h.thisClass]
    exact hthis'

theorem member (h : ctx.ClassRenamed c c') (hold : ctx.oldPool = c.pool)
    (howner : c.name = .ok ctx.owner) {kind : MemberKind} {m m' : Member}
    (hm : ctx.MemberRenamed c'.pool kind m m') : MemberKept ctx.resolver c c' kind m m' where
  flags := hm.flags
  declared := h.declaration hold howner hm.named
  attributes := by
    have hstripped : (Place.ofMember kind).stripped = [] := by cases kind <;> rfl
    rw [← hold]
    exact AttributesRenamed.attributesKept _ (hstripped ▸ hm.attributes)
      (fun h => (MemberPayloadRenamed.kept h).1) (fun h => (MemberPayloadRenamed.kept h).2)

end ClassRenamed

end Context

/-- **A renaming keeps the structure of a class.**  The bytes it answers are read again as a class
of the same version, flags and place in the hierarchy, with the same members in the same order under
their new names. Only debug attributes are missing, bodies run the same code, and a payload that is
not rewritten in its place is the same byte for byte. -/
theorem rename_structure {r : Resolver} {bytes : Bytes} {out : RenamedClass}
    (h : rename r bytes = .ok out) :
    ∃ c c', ClassFile.parse bytes = .ok c ∧ ClassFile.parse out.bytes = .ok c'
      ∧ StructureKept r c c' := by
  obtain ⟨c, c', hparse, howner, hparse', -, hrenamed⟩ := rename_spec h
  refine ⟨c, c', hparse, hparse', ⟨hrenamed.minor, hrenamed.major, hrenamed.flags,
    hrenamed.thisClass, hrenamed.superClass, hrenamed.interfaces, ?_, ?_, ?_⟩⟩
  · exact hrenamed.fields.imp fun _ _ => hrenamed.member rfl howner
  · exact hrenamed.methods.imp fun _ _ => hrenamed.member rfl howner
  · exact hrenamed.attributes.attributesKept .classFile (fun h => h.kept.1) (fun h => h.kept.2)

theorem rename_structure_sampleClass :
    rename sampleResolver sampleClass = .ok renamedSample
      ∧ ∃ c c', ClassFile.parse sampleClass = .ok c ∧ ClassFile.parse renamedSample.bytes = .ok c'
        ∧ StructureKept sampleResolver c c' :=
  ⟨rename_sampleClass, rename_structure rename_sampleClass⟩

end Jarwright.Renaming
