import Jarwright.Proofs.Renaming.Exchanges
import Jarwright.Proofs.Renaming.Trees

/-!
# Attributes before and after a renaming

The relations of this file say what may happen to an attribute, by its name and its place. They
speak of the old pool, which is the one of the context, and of the pool that is written in the end.

* `LeafRenamed` is for the payloads that may stand in any place, `MethodPayloadRenamed` and
  `ClassPayloadRenamed` add those of a method and of a class;
* `AttributesRenamed` is for a list: the attributes with stripped names are left out, and the others
  stay in order;
* `CodeRenamed` and `ComponentRenamed` are for the two structures that have attributes inside.

A payload with any other name is the same before and after.
-/

namespace Jarwright.Renaming

open ClassFile ConstantPool
open Reader (Counted)

/-- A list that can be written becomes one that can when its items do. -/
theorem counted_of_forall₂ {α : Type} {Fits : α → Prop} {R : α → α → Prop} {xs ys : List α}
    (h : List.Forall₂ R xs ys) (hR : ∀ x y, R x y → Fits x → Fits y) (hxs : Counted Fits xs) :
    Counted Fits ys := by
  refine ⟨h.length_eq ▸ hxs.1, ?_⟩
  have hfits := hxs.2
  clear hxs
  induction h with
  | nil => exact hfits
  | cons hx _ ih =>
    intro z hz
    rcases List.mem_cons.1 hz with rfl | hz
    · exact hR _ _ hx (hfits _ (List.mem_cons_self ..))
    · exact ih (fun x hx => hfits x (List.mem_cons_of_mem _ hx)) z hz

/-! ## Components of records -/

namespace Component

/-- A component whose attributes are not too many or too long. -/
def Fits (c : Component) : Prop := Counted Attribute.Fits c.attributes

/-- Reads one component. -/
def read : Reader Component := do
  let name ← Reader.u2
  let descriptor ← Reader.u2
  let attributes ← Attribute.readAll
  return ⟨name, descriptor, attributes⟩

/-- The components that the payload of a record holds. -/
def parseAll (payload : Bytes) : Except Fault (List Component) :=
  Reader.eval (Reader.whole (.badLayout .record) do
    let count ← Reader.u2
    Reader.times count.toNat read) payload

theorem read_eq_ok {bs rest : Bytes} {c : Component} :
    read bs = .ok c rest ↔ c.Fits ∧ bs = c.encode ++ rest := by
  obtain ⟨name, descriptor, attributes⟩ := c
  simp only [read, bind_eq_ok, Reader.u2_eq_ok, Attribute.readAll_eq_ok, pure_eq_ok, encode,
    Component.mk.injEq, List.append_assoc]
  constructor
  · rintro ⟨_, _, rfl, _, _, rfl, _, _, ⟨hfit, rfl⟩, ⟨rfl, rfl, rfl⟩, rfl⟩
    exact ⟨hfit, rfl⟩
  · rintro ⟨hfit, rfl⟩
    exact ⟨_, _, rfl, _, _, rfl, _, _, ⟨hfit, rfl⟩, ⟨rfl, rfl, rfl⟩, rfl⟩

theorem parseAll_eq_ok {payload : Bytes} {cs : List Component} :
    parseAll payload = .ok cs ↔ Counted Fits cs ∧ payload = putList encode cs := by
  simp only [parseAll, Reader.eval_eq_ok, Reader.whole_eq_ok, Reader.counted_eq_ok read_eq_ok,
    List.append_nil]
  constructor
  · rintro ⟨_, h, -⟩
    exact h
  · intro h
    exact ⟨[], h, rfl⟩

end Component

namespace Context

/-! ## Payloads in any place -/

/-- The names of the attributes that are taken apart wherever they stand. -/
def leafNames : List String :=
  ["Signature", "RuntimeVisibleAnnotations", "RuntimeInvisibleAnnotations",
    "RuntimeVisibleParameterAnnotations", "RuntimeInvisibleParameterAnnotations",
    "RuntimeVisibleTypeAnnotations", "RuntimeInvisibleTypeAnnotations"]

/-- The index of a descriptor before and after. -/
abbrev DescriptorRenamed (ctx : Context) (final : ConstantPool) : UInt16 → UInt16 → Prop :=
  ctx.TextRenamed final ctx.resolver.descriptor

/-- A payload that may stand in any place, before and after. -/
inductive LeafRenamed (ctx : Context) (final : ConstantPool) (site : Signature.Site) :
    String → Bytes → Bytes → Prop where
  | signature {i i' : UInt16} :
      ctx.TextRenamed final (Signature.map site ctx.resolver.type) i i' →
      LeafRenamed ctx final site "Signature" (putU2 i) (putU2 i')
  | annotations {name : String} {ts ts' : List AnnotationTree} :
      name = "RuntimeVisibleAnnotations" ∨ name = "RuntimeInvisibleAnnotations" →
      ts.length < UInt16.size →
      List.Forall₂ (TreeRenamed (ctx.DescriptorRenamed final)) ts ts' →
      LeafRenamed ctx final site name (putList AnnotationTree.encode ts)
        (putList AnnotationTree.encode ts')
  | parameters {name : String} {ps ps' : List (List AnnotationTree)} :
      name = "RuntimeVisibleParameterAnnotations"
        ∨ name = "RuntimeInvisibleParameterAnnotations" →
      ps.length < UInt8.size →
      List.Forall₂ (fun ts ts' => ts.length < UInt16.size
        ∧ List.Forall₂ (TreeRenamed (ctx.DescriptorRenamed final)) ts ts') ps ps' →
      LeafRenamed ctx final site name
        (Bytes.bigEndian 1 ps.length ++ ps.flatMap (putList AnnotationTree.encode))
        (Bytes.bigEndian 1 ps'.length ++ ps'.flatMap (putList AnnotationTree.encode))
  | typeUses {name : String} {us us' : List TypeUse} :
      name = "RuntimeVisibleTypeAnnotations" ∨ name = "RuntimeInvisibleTypeAnnotations" →
      us.length < UInt16.size →
      List.Forall₂ (TypeUseRenamed (ctx.DescriptorRenamed final)) us us' →
      LeafRenamed ctx final site name (putList TypeUse.encode us) (putList TypeUse.encode us')
  | other {name : String} {p : Bytes} : name ∉ leafNames → LeafRenamed ctx final site name p p

/-! ## Lists of attributes -/

/-- A list of attributes before and after: those with a stripped name are left out, the others keep
their order and their names, and their payloads are related by `R`. -/
inductive AttributesRenamed (ctx : Context) (final : ConstantPool) (stripped : List String)
    (R : String → Bytes → Bytes → Prop) : List Attribute → List Attribute → Prop where
  | nil : AttributesRenamed ctx final stripped R [] []
  | dropped {a : Attribute} {as as' : List Attribute} {name : String} :
      ctx.oldPool.utf8 a.name = .ok name → name ∈ stripped →
      AttributesRenamed ctx final stripped R as as' →
      AttributesRenamed ctx final stripped R (a :: as) as'
  | kept {a a' : Attribute} {as as' : List Attribute} {name : String} :
      ctx.oldPool.utf8 a.name = .ok name → name ∉ stripped → a'.name = a.name →
      final.utf8 a'.name = .ok name → R name a.payload a'.payload →
      AttributesRenamed ctx final stripped R as as' →
      AttributesRenamed ctx final stripped R (a :: as) (a' :: as')

/-! ## Methods -/

/-- A body before and after: its debug attributes are left out, and nothing that runs changes. -/
structure CodeRenamed (ctx : Context) (final : ConstantPool) (b b' : Code) : Prop where
  maxStack : b'.maxStack = b.maxStack
  maxLocals : b'.maxLocals = b.maxLocals
  bytecode : b'.bytecode = b.bytecode
  handlers : b'.handlers = b.handlers
  attributes : ctx.AttributesRenamed final strippedFromCode (ctx.LeafRenamed final .fieldSite)
    b.attributes b'.attributes

/-- A payload of a method before and after. -/
inductive MethodPayloadRenamed (ctx : Context) (final : ConstantPool) :
    String → Bytes → Bytes → Prop where
  | code {p p' : Bytes} {b b' : Code} : Code.parse p = .ok b → Code.parse p' = .ok b' →
      ctx.CodeRenamed final b b' → MethodPayloadRenamed ctx final "Code" p p'
  | annotationDefault {v v' : ElementValue} : ValueRenamed (ctx.DescriptorRenamed final) v v' →
      MethodPayloadRenamed ctx final "AnnotationDefault" v.encode v'.encode
  | leaf {name : String} {p p' : Bytes} : name ≠ "Code" → name ≠ "AnnotationDefault" →
      ctx.LeafRenamed final .methodSite name p p' → MethodPayloadRenamed ctx final name p p'

/-- A payload of a declared member before and after. -/
def MemberPayloadRenamed (ctx : Context) (final : ConstantPool) :
    MemberKind → String → Bytes → Bytes → Prop
  | .field => ctx.LeafRenamed final .fieldSite
  | .method => ctx.MethodPayloadRenamed final

/-! ## Classes -/

/-- An inner class before and after: its simple name is taken from its new binary name, and a class
without a name keeps none. -/
structure InnerClassRenamed (ctx : Context) (final : ConstantPool) (c c' : InnerClass) : Prop where
  inner : c'.inner = c.inner
  outer : c'.outer = c.outer
  flags : c'.flags = c.flags
  name : c.name = 0 ∧ c'.name = 0 ∨ c.name ≠ 0 ∧ ∃ binary simple,
    ctx.oldPool.className c.inner = .ok binary
      ∧ ctx.Exchanged final simple (newSimpleName (ctx.resolver.type binary) simple) c.name c'.name

/-- The name and the descriptor with which the class itself declares something, before and
after. -/
def DeclarationRenamed (ctx : Context) (final : ConstantPool) (kind : MemberKind)
    (n d n' d' : UInt16) : Prop :=
  ∃ name descriptor newDescriptor, ctx.resolver.descriptor descriptor = .ok newDescriptor
    ∧ ctx.Exchanged final name (ctx.memberName kind ctx.owner name descriptor) n n'
    ∧ ctx.Exchanged final descriptor newDescriptor d d'

/-- A component of a record before and after: it is renamed as a field of the class. -/
structure ComponentRenamed (ctx : Context) (final : ConstantPool) (c c' : Component) : Prop where
  named : ctx.DeclarationRenamed final .field c.name c.descriptor c'.name c'.descriptor
  attributes : ctx.AttributesRenamed final [] (ctx.LeafRenamed final .fieldSite) c.attributes
    c'.attributes

/-- A payload of a class before and after. -/
inductive ClassPayloadRenamed (ctx : Context) (final : ConstantPool) :
    String → Bytes → Bytes → Prop where
  | innerClasses {cs cs' : List InnerClass} : cs.length < UInt16.size →
      List.Forall₂ (ctx.InnerClassRenamed final) cs cs' →
      ClassPayloadRenamed ctx final "InnerClasses" (putList InnerClass.encode cs)
        (putList InnerClass.encode cs')
  | enclosingMethod {owner m m' : UInt16} :
      m = 0 ∧ m' = 0 ∨ m ≠ 0 ∧ ctx.MemberRenamedAt final .method owner m m' →
      ClassPayloadRenamed ctx final "EnclosingMethod" (putU2 owner ++ putU2 m)
        (putU2 owner ++ putU2 m')
  | record {p p' : Bytes} {cs cs' : List Component} : Component.parseAll p = .ok cs →
      Component.parseAll p' = .ok cs' → List.Forall₂ (ctx.ComponentRenamed final) cs cs' →
      ClassPayloadRenamed ctx final "Record" p p'
  | leaf {name : String} {p p' : Bytes} : name ≠ "InnerClasses" → name ≠ "EnclosingMethod" →
      name ≠ "Record" → ctx.LeafRenamed final .classSite name p p' →
      ClassPayloadRenamed ctx final name p p'

variable {ctx : Context} {final : ConstantPool}

/-! ## What a payload is by its name -/

theorem LeafRenamed.signature_inv {site : Signature.Site} {name : String} {p p' : Bytes}
    (h : ctx.LeafRenamed final site name p p') (hname : name = "Signature") :
    ∃ i i', p = putU2 i ∧ p' = putU2 i'
      ∧ ctx.TextRenamed final (Signature.map site ctx.resolver.type) i i' := by
  cases h with
  | signature h => exact ⟨_, _, rfl, rfl, h⟩
  | annotations h _ _ => rcases h with rfl | rfl <;> simp at hname
  | parameters h _ _ => rcases h with rfl | rfl <;> simp at hname
  | typeUses h _ _ => rcases h with rfl | rfl <;> simp at hname
  | other h => simp [leafNames, hname] at h

theorem MethodPayloadRenamed.code_inv {name : String} {p p' : Bytes}
    (h : ctx.MethodPayloadRenamed final name p p') (hname : name = "Code") :
    ∃ b b', Code.parse p = .ok b ∧ Code.parse p' = .ok b' ∧ ctx.CodeRenamed final b b' := by
  cases h with
  | code hp hp' hcode => exact ⟨_, _, hp, hp', hcode⟩
  | annotationDefault _ => simp at hname
  | leaf hcode _ _ => exact absurd hname hcode

theorem ClassPayloadRenamed.enclosingMethod_inv {name : String} {p p' : Bytes}
    (h : ctx.ClassPayloadRenamed final name p p') (hname : name = "EnclosingMethod") :
    ∃ owner m m', p = putU2 owner ++ putU2 m ∧ p' = putU2 owner ++ putU2 m'
      ∧ (m = 0 ∧ m' = 0 ∨ m ≠ 0 ∧ ctx.MemberRenamedAt final .method owner m m') := by
  cases h with
  | innerClasses _ _ => simp at hname
  | enclosingMethod h => exact ⟨_, _, _, rfl, rfl, h⟩
  | record _ _ _ => simp at hname
  | leaf _ henclosing _ _ => exact absurd hname henclosing

theorem ClassPayloadRenamed.record_inv {name : String} {p p' : Bytes}
    (h : ctx.ClassPayloadRenamed final name p p') (hname : name = "Record") :
    ∃ cs cs', Component.parseAll p = .ok cs ∧ Component.parseAll p' = .ok cs'
      ∧ List.Forall₂ (ctx.ComponentRenamed final) cs cs' := by
  cases h with
  | innerClasses _ _ => simp at hname
  | enclosingMethod _ => simp at hname
  | record hp hp' hcs => exact ⟨_, _, hp, hp', hcs⟩
  | leaf _ _ hrecord _ => exact absurd hname hrecord

/-! ## Nothing grows -/

theorem LeafRenamed.length_eq {site : Signature.Site} {name : String} {p p' : Bytes}
    (h : ctx.LeafRenamed final site name p p') : p'.length = p.length := by
  cases h with
  | signature _ => rw [length_putU2, length_putU2]
  | annotations _ _ hts => exact length_putList_eq (fun _ _ h => h.length_encode) hts
  | @parameters _ ps ps' _ hcount hps =>
    clear hcount
    have hflat : (ps'.flatMap (putList AnnotationTree.encode)).length
        = (ps.flatMap (putList AnnotationTree.encode)).length := by
      induction hps with
      | nil => rfl
      | cons hts _ ih =>
        have hhead := length_putList_eq (fun _ _ h => h.length_encode) hts.2
        rw [List.flatMap_cons, List.flatMap_cons, List.length_append, List.length_append, ih, hhead]
    simp only [List.length_append, Bytes.length_bigEndian, hflat]
  | typeUses _ _ hus => exact length_putList_eq (fun _ _ h => h.length_encode) hus
  | other _ => rfl

namespace AttributesRenamed

variable {stripped : List String} {R : String → Bytes → Bytes → Prop} {as as' : List Attribute}

theorem length_le (h : ctx.AttributesRenamed final stripped R as as') :
    as'.length ≤ as.length := by
  induction h with
  | nil => exact Nat.le_refl _
  | dropped _ _ _ ih => exact Nat.le_succ_of_le ih
  | kept _ _ _ _ _ _ ih => exact Nat.succ_le_succ ih

variable (hR : ∀ {name p p'}, R name p p' → p'.length ≤ p.length)

include hR

/-- A list that can be written stays one when its payloads do not grow. -/
theorem counted (h : ctx.AttributesRenamed final stripped R as as')
    (has : Counted Attribute.Fits as) : Counted Attribute.Fits as' := by
  refine ⟨Nat.lt_of_le_of_lt h.length_le has.1, ?_⟩
  have hfits := has.2
  clear has
  induction h with
  | nil => simp
  | dropped _ _ _ ih => exact ih fun a ha => hfits a (List.mem_cons_of_mem _ ha)
  | @kept a a' _ _ _ _ _ _ _ hp _ ih =>
    intro b hb
    rcases List.mem_cons.1 hb with rfl | hb
    · exact Nat.lt_of_le_of_lt (hR hp) (hfits a (List.mem_cons_self ..))
    · exact ih (fun a ha => hfits a (List.mem_cons_of_mem _ ha)) b hb

theorem length_encodeAll_le (h : ctx.AttributesRenamed final stripped R as as') :
    (Attribute.encodeAll as').length ≤ (Attribute.encodeAll as).length := by
  have hflat : (as'.flatMap Attribute.encode).length ≤ (as.flatMap Attribute.encode).length := by
    induction h with
    | nil => exact Nat.le_refl _
    | dropped _ _ _ ih =>
      rw [List.flatMap_cons, List.length_append]
      exact Nat.le_add_left_of_le ih
    | kept _ _ _ _ hp _ ih =>
      have := hR hp
      simp only [List.flatMap_cons, List.length_append, Attribute.encode, length_putU2,
        Bytes.length_bigEndian]
      omega
  simp only [Attribute.encodeAll, putList, List.length_append, Bytes.length_bigEndian]
  exact Nat.add_le_add_left hflat _

end AttributesRenamed

theorem MethodPayloadRenamed.length_le {name : String} {p p' : Bytes}
    (h : ctx.MethodPayloadRenamed final name p p') : p'.length ≤ p.length := by
  cases h with
  | code hp hp' hcode =>
    obtain ⟨-, rfl⟩ := Code.parse_eq_ok.1 hp
    obtain ⟨-, rfl⟩ := Code.parse_eq_ok.1 hp'
    have hattributes := hcode.attributes.length_encodeAll_le fun h => Nat.le_of_eq h.length_eq
    simp only [Code.encode, hcode.bytecode, hcode.handlers, List.length_append, length_putU2,
      Bytes.length_bigEndian]
    omega
  | annotationDefault hv => exact Nat.le_of_eq hv.length_encode
  | leaf _ _ h => exact Nat.le_of_eq h.length_eq

theorem MemberPayloadRenamed.length_le {kind : MemberKind} {name : String} {p p' : Bytes}
    (h : ctx.MemberPayloadRenamed final kind name p p') : p'.length ≤ p.length := by
  cases kind with
  | field => exact Nat.le_of_eq (LeafRenamed.length_eq h)
  | method => exact MethodPayloadRenamed.length_le h

theorem ComponentRenamed.fits {c c' : Component} (h : ctx.ComponentRenamed final c c')
    (hc : c.Fits) : c'.Fits :=
  h.attributes.counted (fun h => Nat.le_of_eq h.length_eq) hc

theorem ClassPayloadRenamed.length_le {name : String} {p p' : Bytes}
    (h : ctx.ClassPayloadRenamed final name p p') : p'.length ≤ p.length := by
  cases h with
  | innerClasses _ hcs =>
    have hitem : ∀ c c' : InnerClass, ctx.InnerClassRenamed final c c' →
        c'.encode.length = c.encode.length := fun _ _ _ => by simp [InnerClass.encode]
    exact Nat.le_of_eq (length_putList_eq hitem hcs)
  | enclosingMethod _ => simp
  | record hp hp' hcs =>
    obtain ⟨-, rfl⟩ := Component.parseAll_eq_ok.1 hp
    obtain ⟨-, rfl⟩ := Component.parseAll_eq_ok.1 hp'
    simp only [putList, List.length_append, Bytes.length_bigEndian]
    refine Nat.add_le_add_left ?_ _
    clear hp hp'
    induction hcs with
    | nil => exact Nat.le_refl _
    | cons hc _ ih =>
      have hattributes := hc.attributes.length_encodeAll_le fun h => Nat.le_of_eq h.length_eq
      simp only [List.flatMap_cons, List.length_append, Component.encode, length_putU2]
      omega
  | leaf _ _ _ h => exact Nat.le_of_eq h.length_eq

end Context

end Jarwright.Renaming
