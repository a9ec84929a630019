import Jarwright.Proofs.Renaming.Linkage

/-!
# Signatures and declarations of a renamed class

The signatures of a class stand in five places: on the class, on its fields and methods, inside the
bodies of methods, and on the components of a record. `signatures` collects their texts place by
place, `declarations` collects what the class declares, and both are given as results, because an
index may fail to resolve.

* `Both R` says of two results that both succeed, with related values;
* `SignaturesRelated R` says so of the signatures of two classes, place by place.

A renaming relates declarations by `renameMemberName` and the texts of signatures by `Signature.map`
for their place: `ClassRenamed.declarations` and `ClassRenamed.signatures`.
-/

namespace Jarwright.Renaming

open ClassFile ConstantPool

/-- Both results succeed, with related values. -/
def Both {α : Type} (R : α → α → Prop) (x x' : Except Fault α) : Prop :=
  ∃ a a', x = .ok a ∧ x' = .ok a' ∧ R a a'

/-! ## What a class holds -/

/-- The texts of some signatures. -/
abbrev Texts := List (Except Fault String)

/-- The text of a signature. -/
def signatureText (pool : ConstantPool) (payload : Bytes) : Except Fault String := do
  let i ← Reader.eval (Reader.whole (.badLayout .signature) Reader.u2) payload
  pool.utf8 i

/-- The texts of the signatures in a list of attributes. -/
def signatureTexts (pool : ConstantPool) (as : List Attribute) : Texts :=
  (attributesNamed pool "Signature" as).map fun a => signatureText pool a.payload

/-- The texts of the signatures inside the bodies in a list of attributes. -/
def bodyTexts (pool : ConstantPool) (as : List Attribute) : List (Except Fault Texts) :=
  (attributesNamed pool "Code" as).map fun a =>
    (Code.parse a.payload).map fun b => signatureTexts pool b.attributes

/-- The texts of the signatures of the components of the records in a list of attributes. -/
def componentTexts (pool : ConstantPool) (as : List Attribute) :
    List (Except Fault (List Texts)) :=
  (attributesNamed pool "Record" as).map fun a =>
    (Component.parseAll a.payload).map fun cs => cs.map fun c => signatureTexts pool c.attributes

/-- The texts of all signatures of a class, by the places in which they stand. -/
structure Signatures where
  ofClass : Texts
  ofFields : List Texts
  ofMethods : List Texts
  ofBodies : List (List (Except Fault Texts))
  ofComponents : List (Except Fault (List Texts))

/-- The signatures of a class. -/
def signatures (c : ClassFile) : Signatures where
  ofClass := signatureTexts c.pool c.attributes
  ofFields := c.fields.map fun m => signatureTexts c.pool m.attributes
  ofMethods := c.methods.map fun m => signatureTexts c.pool m.attributes
  ofBodies := c.methods.map fun m => bodyTexts c.pool m.attributes
  ofComponents := componentTexts c.pool c.attributes

/-- The members of either kind that a class declares, by their names. -/
def declarations (c : ClassFile) (kind : MemberKind) : List (Except Fault MemberName) :=
  (members c kind).map fun m => c.declaration m.name m.descriptor

/-! ## Comparing two classes -/

/-- The texts of some signatures, related one by one. -/
abbrev TextsRelated (R : String → String → Prop) : Texts → Texts → Prop := List.Forall₂ (Both R)

/-- The signatures of two classes, related place by place by the relation for such a place. -/
structure SignaturesRelated (R : Signature.Site → String → String → Prop) (s s' : Signatures) :
    Prop where
  ofClass : TextsRelated (R .classSite) s.ofClass s'.ofClass
  ofFields : List.Forall₂ (TextsRelated (R .fieldSite)) s.ofFields s'.ofFields
  ofMethods : List.Forall₂ (TextsRelated (R .methodSite)) s.ofMethods s'.ofMethods
  ofBodies : List.Forall₂ (List.Forall₂ (Both (TextsRelated (R .fieldSite)))) s.ofBodies s'.ofBodies
  ofComponents : List.Forall₂ (Both (List.Forall₂ (TextsRelated (R .fieldSite)))) s.ofComponents
    s'.ofComponents

/-- The name of a declared or mentioned member before and after. -/
def MemberNameMapped (r : Resolver) (kind : MemberKind) (m m' : MemberName) : Prop :=
  renameMemberName r kind m = .ok m'

/-- The text of a signature before and after. -/
def SignatureMapped (r : Resolver) (site : Signature.Site) (s s' : String) : Prop :=
  Signature.map site r.type s = .ok s'

/-! ## What a renaming does to them -/

namespace Context

variable {ctx : Context} {final : ConstantPool}

theorem LeafRenamed.signatureText {site : Signature.Site} {p p' : Bytes}
    (h : ctx.LeafRenamed final site "Signature" p p') :
    Both (SignatureMapped ctx.resolver site) (signatureText ctx.oldPool p)
      (signatureText final p') := by
  have hread (pool : ConstantPool) (i : UInt16) :
      Renaming.signatureText pool (putU2 i) = pool.utf8 i := by
    have heval :
        Reader.eval (Reader.whole (.badLayout .signature) Reader.u2) (putU2 i) = .ok i := by
      simp only [Reader.eval_eq_ok, Reader.whole_eq_ok, Reader.u2_eq_ok]
      exact ⟨[], by simp, rfl⟩
    rw [Renaming.signatureText, heval]
    rfl
  obtain ⟨i, i', rfl, rfl, old, new, hnew, hex⟩ := h.signature_inv rfl
  rw [hread, hread]
  exact ⟨old, new, hex.before, hex.after, hnew⟩

theorem AttributesRenamed.signatureTexts {site : Signature.Site} {stripped : List String}
    {R : String → Bytes → Bytes → Prop} {as as' : List Attribute}
    (h : ctx.AttributesRenamed final stripped R as as') (hstripped : "Signature" ∉ stripped)
    (hR : ∀ {p p'}, R "Signature" p p' → ctx.LeafRenamed final site "Signature" p p') :
    TextsRelated (SignatureMapped ctx.resolver site) (signatureTexts ctx.oldPool as)
      (signatureTexts final as') := by
  rw [TextsRelated, Renaming.signatureTexts, Renaming.signatureTexts, List.forall₂_map_left_iff,
    List.forall₂_map_right_iff]
  exact (h.named _ hstripped).imp fun _ _ hp => (hR hp).signatureText

theorem MethodPayloadRenamed.leaf_inv {p p' : Bytes}
    (h : ctx.MethodPayloadRenamed final "Signature" p p') :
    ctx.LeafRenamed final .methodSite "Signature" p p' := by
  generalize hname : "Signature" = name at h
  cases h with
  | code _ _ _ => simp at hname
  | annotationDefault _ => simp at hname
  | leaf _ _ h => exact h

theorem ClassPayloadRenamed.leaf_inv {p p' : Bytes}
    (h : ctx.ClassPayloadRenamed final "Signature" p p') :
    ctx.LeafRenamed final .classSite "Signature" p p' := by
  generalize hname : "Signature" = name at h
  cases h with
  | innerClasses _ _ => simp at hname
  | enclosingMethod _ => simp at hname
  | record _ _ _ => simp at hname
  | leaf _ _ _ h => exact h

theorem MemberRenamed.bodyTexts {m m' : Member} (h : ctx.MemberRenamed final .method m m') :
    List.Forall₂ (Both (TextsRelated (SignatureMapped ctx.resolver .fieldSite)))
      (bodyTexts ctx.oldPool m.attributes) (bodyTexts final m'.attributes) := by
  rw [Renaming.bodyTexts, Renaming.bodyTexts, List.forall₂_map_left_iff, List.forall₂_map_right_iff]
  refine (h.attributes.named _ (by simp)).imp fun a a' hp => ?_
  obtain ⟨b, b', hb, hb', hcode⟩ := MethodPayloadRenamed.code_inv hp rfl
  rw [hb, hb']
  exact ⟨_, _, rfl, rfl, hcode.attributes.signatureTexts (by decide) id⟩

namespace ClassRenamed

variable {c c' : ClassFile} (h : ctx.ClassRenamed c c') (hold : ctx.oldPool = c.pool)

include h hold

theorem componentTexts :
    List.Forall₂ (Both (List.Forall₂ (TextsRelated (SignatureMapped ctx.resolver .fieldSite))))
      (componentTexts c.pool c.attributes) (componentTexts c'.pool c'.attributes) := by
  rw [Renaming.componentTexts, Renaming.componentTexts, List.forall₂_map_left_iff,
    List.forall₂_map_right_iff, ← hold]
  refine (h.attributes.named _ (by decide)).imp fun a a' hp => ?_
  obtain ⟨cs, cs', hcs, hcs', hall⟩ := hp.record_inv rfl
  rw [hcs, hcs']
  refine ⟨_, _, rfl, rfl, ?_⟩
  rw [List.forall₂_map_left_iff, List.forall₂_map_right_iff]
  exact hall.imp fun _ _ hc => hc.attributes.signatureTexts (by simp) id

/-- Every signature of a renamed class is the old one renamed for its place. -/
theorem signatures :
    SignaturesRelated (SignatureMapped ctx.resolver) (signatures c) (signatures c') where
  ofClass := by
    rw [Renaming.signatures, Renaming.signatures, ← hold]
    exact h.attributes.signatureTexts (by decide) fun hp => hp.leaf_inv
  ofFields := by
    rw [Renaming.signatures, Renaming.signatures, List.forall₂_map_left_iff,
      List.forall₂_map_right_iff, ← hold]
    exact h.fields.imp fun _ _ hm => hm.attributes.signatureTexts (by simp) id
  ofMethods := by
    rw [Renaming.signatures, Renaming.signatures, List.forall₂_map_left_iff,
      List.forall₂_map_right_iff, ← hold]
    exact h.methods.imp fun _ _ hm =>
      hm.attributes.signatureTexts (by simp) fun hp => MethodPayloadRenamed.leaf_inv hp
  ofBodies := by
    rw [Renaming.signatures, Renaming.signatures, List.forall₂_map_left_iff,
      List.forall₂_map_right_iff, ← hold]
    exact h.methods.imp fun _ _ hm => hm.bodyTexts
  ofComponents := h.componentTexts hold

/-- Everything that a renamed class declares is declared under its new name. -/
theorem declarations (howner : c.name = .ok ctx.owner) (kind : MemberKind) :
    List.Forall₂ (Both (MemberNameMapped ctx.resolver kind))
      (declarations c kind) (declarations c' kind) := by
  rw [Renaming.declarations, Renaming.declarations, List.forall₂_map_left_iff,
    List.forall₂_map_right_iff]
  refine (h.members kind).imp fun m m' hm => ?_
  obtain ⟨t, t', ht, hmap, ht'⟩ := h.declaration hold howner hm.named
  exact ⟨t, t', ht, ht', hmap⟩

end ClassRenamed

end Context

end Jarwright.Renaming
