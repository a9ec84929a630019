import Jarwright.Proofs.Renaming.AnnotationData
import Jarwright.Proofs.Renaming.Sites

/-!
# Annotations before and after a renaming

A renaming reads the data of every attribute that holds annotations, and writes data of the same
shape. `AnnotationData.Renamed R` relates the two: the indices of descriptors are related by `R`,
and everything else is the same.

`rename_annotations` has two sides. Where a renaming succeeds, each payload is the payload of some
data and becomes the payload of the renamed data; where a payload is not the payload of any data,
the renaming fails.
-/

namespace Jarwright.Renaming

open ClassFile ConstantPool

variable {R : UInt16 → UInt16 → Prop}

/-! ## Data of the same shape -/

/-- Data of the same shape, with related descriptors. -/
inductive AnnotationData.Renamed (R : UInt16 → UInt16 → Prop) :
    AnnotationData → AnnotationData → Prop where
  | annotations {ts ts' : List AnnotationTree} : List.Forall₂ (TreeRenamed R) ts ts' →
      Renamed R (annotations ts) (annotations ts')
  | parameters {ps ps' : List (List AnnotationTree)} :
      List.Forall₂ (List.Forall₂ (TreeRenamed R)) ps ps' →
      Renamed R (parameters ps) (parameters ps')
  | typeUses {us us' : List TypeUse} : List.Forall₂ (TypeUseRenamed R) us us' →
      Renamed R (typeUses us) (typeUses us')
  | default {v v' : ElementValue} : ValueRenamed R v v' → Renamed R (default v) (default v')

/-- A payload before and after: both are written forms, of data of the same shape, and of the same
length. -/
def AnnotationPayloadRenamed (R : UInt16 → UInt16 → Prop) (name : String) (p p' : Bytes) : Prop :=
  ∃ d d' : AnnotationData, d.WellFormed ∧ d'.WellFormed ∧ d.Renamed R d'
    ∧ name ∈ d.attributeNames ∧ p = d.encode ∧ p' = d'.encode ∧ p'.length = p.length

theorem AnnotationPayloadRenamed.isAnnotationPayload {name : String} {p p' : Bytes}
    (h : AnnotationPayloadRenamed R name p p') : IsAnnotationPayload name p := by
  obtain ⟨d, _, hwell, -, -, hname, hp, -⟩ := h
  exact ⟨d, hwell, hname, hp⟩

/-! ## Renamed trees can be written -/

theorem mem_constantTags {tag : UInt8} (h : isConstantTag tag = true) : tag ∈ constantTags := by
  simp only [isConstantTag, Bool.or_eq_true, beq_iff_eq, or_assoc] at h
  rcases h with rfl | rfl | rfl | rfl | rfl | rfl | rfl | rfl | rfl <;> decide

mutual

theorem ValueRenamed.wellFormed {v v' : ElementValue} (h : ValueRenamed R v v') :
    v.WellFormed ∧ v'.WellFormed := by
  match h with
  | .constant htag => exact ⟨mem_constantTags htag, mem_constantTags htag⟩
  | .enumConstant _ => exact ⟨trivial, trivial⟩
  | .classLiteral _ => exact ⟨trivial, trivial⟩
  | .nested _ hcount hes =>
    exact ⟨⟨hcount, hes.wellFormed.1⟩, hes.length_eq.symm ▸ hcount, hes.wellFormed.2⟩
  | .array hcount hvs =>
    exact ⟨⟨hcount, hvs.wellFormed.1⟩, hvs.length_eq.symm ▸ hcount, hvs.wellFormed.2⟩

theorem ElementsRenamed.wellFormed {es es' : List (UInt16 × ElementValue)}
    (h : ElementsRenamed R es es') : WellFormedElements es ∧ WellFormedElements es' := by
  match h with
  | .nil => exact ⟨trivial, trivial⟩
  | .cons hv hes =>
    exact ⟨⟨hv.wellFormed.1, hes.wellFormed.1⟩, hv.wellFormed.2, hes.wellFormed.2⟩

theorem ValuesRenamed.wellFormed {vs vs' : List ElementValue} (h : ValuesRenamed R vs vs') :
    WellFormedValues vs ∧ WellFormedValues vs' := by
  match h with
  | .nil => exact ⟨trivial, trivial⟩
  | .cons hv hvs =>
    exact ⟨⟨hv.wellFormed.1, hvs.wellFormed.1⟩, hv.wellFormed.2, hvs.wellFormed.2⟩

end

theorem TreeRenamed.wellFormed {t t' : AnnotationTree} (h : TreeRenamed R t t') :
    t.WellFormed ∧ t'.WellFormed :=
  ⟨⟨h.count, h.elements.wellFormed.1⟩, h.elements.length_eq.symm ▸ h.count,
    h.elements.wellFormed.2⟩

theorem TypeUseRenamed.wellFormed {u u' : TypeUse} (h : TypeUseRenamed R u u') :
    u.WellFormed ∧ u'.WellFormed := by
  refine ⟨⟨h.isTarget, h.isPath, h.tree.wellFormed.1⟩, ⟨?_, ?_, h.tree.wellFormed.2⟩⟩
  · rw [h.targetType, h.targetInfo]
    exact h.isTarget
  · rw [h.path]
    exact h.isPath

/-- What holds of related values on both sides holds of the values of related lists. -/
theorem forall_of_forall₂ {α : Type} {S : α → α → Prop} {P : α → Prop} {xs ys : List α}
    (hS : ∀ x y, S x y → P x ∧ P y) (h : List.Forall₂ S xs ys) :
    (∀ x ∈ xs, P x) ∧ ∀ y ∈ ys, P y := by
  induction h with
  | nil => simp
  | cons hxy _ ih =>
    obtain ⟨hx, hy⟩ := hS _ _ hxy
    exact ⟨List.forall_mem_cons.2 ⟨hx, ih.1⟩, List.forall_mem_cons.2 ⟨hy, ih.2⟩⟩

/-! ## What a renaming does to them -/

/-- The names of the attributes that hold annotations wherever they stand. -/
def annotationNames : List String :=
  ["RuntimeVisibleAnnotations", "RuntimeInvisibleAnnotations",
    "RuntimeVisibleParameterAnnotations", "RuntimeInvisibleParameterAnnotations",
    "RuntimeVisibleTypeAnnotations", "RuntimeInvisibleTypeAnnotations"]

/-- The names of the attributes that hold annotations in a place. The default of an element stands
on a method. -/
def Place.annotationNames : Place → List String
  | .method => "AnnotationDefault" :: Renaming.annotationNames
  | _ => Renaming.annotationNames

namespace Context

variable {ctx : Context} {final : ConstantPool}

/-- The attributes of a list that hold annotations, before and after a renaming. -/
def AnnotationsRenamed (ctx : Context) (final : ConstantPool) (place : Place)
    (as as' : List Attribute) : Prop :=
  ∀ name ∈ place.annotationNames, List.Forall₂
    (fun a a' => AnnotationPayloadRenamed (ctx.DescriptorRenamed final) name a.payload a'.payload)
    (attributesNamed ctx.oldPool name as) (attributesNamed final name as')

theorem LeafRenamed.annotationPayloadRenamed {site : Signature.Site} {name : String}
    {p p' : Bytes} (h : ctx.LeafRenamed final site name p p')
    (hname : name ∈ Renaming.annotationNames) :
    AnnotationPayloadRenamed (ctx.DescriptorRenamed final) name p p' := by
  have hlength := h.length_eq
  cases h with
  | signature _ => simp [Renaming.annotationNames] at hname
  | annotations hkind hcount hts =>
    obtain ⟨hwell, hwell'⟩ := forall_of_forall₂ (fun _ _ h => h.wellFormed) hts
    exact ⟨.annotations _, .annotations _, ⟨hcount, hwell⟩, ⟨hts.length_eq ▸ hcount, hwell'⟩,
      .annotations hts, by simpa [AnnotationData.attributeNames] using hkind, rfl, rfl, hlength⟩
  | parameters hkind hcount hps =>
    obtain ⟨hwell, hwell'⟩ := forall_of_forall₂
      (P := fun ts => ts.length < UInt16.size ∧ ∀ t ∈ ts, t.WellFormed)
      (fun ts ts' hts => by
        obtain ⟨hwell, hwell'⟩ := forall_of_forall₂ (fun _ _ h => h.wellFormed) hts.2
        exact ⟨⟨hts.1, hwell⟩, hts.2.length_eq ▸ hts.1, hwell'⟩) hps
    exact ⟨.parameters _, .parameters _, ⟨hcount, hwell⟩, ⟨hps.length_eq ▸ hcount, hwell'⟩,
      .parameters (hps.imp fun _ _ hts => hts.2),
      by simpa [AnnotationData.attributeNames] using hkind, rfl, rfl, hlength⟩
  | typeUses hkind hcount hus =>
    obtain ⟨hwell, hwell'⟩ := forall_of_forall₂ (fun _ _ h => h.wellFormed) hus
    exact ⟨.typeUses _, .typeUses _, ⟨hcount, hwell⟩, ⟨hus.length_eq ▸ hcount, hwell'⟩,
      .typeUses hus, by simpa [AnnotationData.attributeNames] using hkind, rfl, rfl, hlength⟩
  | other h => exact absurd (List.mem_cons_of_mem "Signature" hname) h

theorem MethodPayloadRenamed.annotationPayloadRenamed {name : String} {p p' : Bytes}
    (h : ctx.MethodPayloadRenamed final name p p')
    (hname : name ∈ Place.method.annotationNames) :
    AnnotationPayloadRenamed (ctx.DescriptorRenamed final) name p p' := by
  cases h with
  | code _ _ _ => simp [Place.annotationNames, Renaming.annotationNames] at hname
  | annotationDefault hv =>
    exact ⟨.default _, .default _, hv.wellFormed.1, hv.wellFormed.2, .default hv,
      List.mem_singleton_self _, rfl, rfl, hv.length_encode⟩
  | leaf _ hdefault h =>
    exact h.annotationPayloadRenamed ((List.mem_cons.1 hname).resolve_left hdefault)

theorem ClassPayloadRenamed.annotationPayloadRenamed {name : String} {p p' : Bytes}
    (h : ctx.ClassPayloadRenamed final name p p') (hname : name ∈ Renaming.annotationNames) :
    AnnotationPayloadRenamed (ctx.DescriptorRenamed final) name p p' := by
  cases h with
  | innerClasses _ _ => simp [Renaming.annotationNames] at hname
  | enclosingMethod _ => simp [Renaming.annotationNames] at hname
  | record _ _ _ => simp [Renaming.annotationNames] at hname
  | leaf _ _ _ h => exact h.annotationPayloadRenamed hname

theorem PayloadRenamed.annotationPayloadRenamed {place : Place} {name : String} {p p' : Bytes}
    (h : ctx.PayloadRenamed final place name p p') (hname : name ∈ place.annotationNames) :
    AnnotationPayloadRenamed (ctx.DescriptorRenamed final) name p p' := by
  cases place with
  | classFile => exact ClassPayloadRenamed.annotationPayloadRenamed h hname
  | method => exact MethodPayloadRenamed.annotationPayloadRenamed h hname
  | field => exact LeafRenamed.annotationPayloadRenamed h hname
  | code => exact LeafRenamed.annotationPayloadRenamed h hname
  | component => exact LeafRenamed.annotationPayloadRenamed h hname

/-- Annotations are not debug data. -/
theorem not_mem_stripped {place : Place} :
    ∀ name ∈ place.annotationNames, name ∉ place.stripped := by
  cases place <;> decide

theorem AttributesRenamed.annotationsRenamed {place : Place} {as as' : List Attribute}
    (h : ctx.ListRenamed final place as as') : ctx.AnnotationsRenamed final place as as' :=
  fun name hname => (h.named name (not_mem_stripped name hname)).imp fun _ _ hp =>
    PayloadRenamed.annotationPayloadRenamed hp hname

end Context

/-- **Annotations are renamed as trees.**  Where a renaming succeeds, every payload that holds
annotations is the written form of trees, and becomes the written form of trees of the same shape
and length: each index of a descriptor becomes one of the renamed descriptor, or stays where that is
the old one, and everything else stays. Where a payload is not such a written form, for instance
because bytes are left over, there is no result. -/
theorem rename_annotations (r : Resolver) (bytes : Bytes) :
    (∀ out, rename r bytes = .ok out → ∃ c c', ClassFile.parse bytes = .ok c
        ∧ ClassFile.parse out.bytes = .ok c'
        ∧ ∀ site, Option.Rel
          ((⟨r, c.pool, out.oldName⟩ : Context).AnnotationsRenamed c'.pool site.place)
          (attributesAt? c site) (attributesAt? c' site))
      ∧ (∀ c site as name a, ClassFile.parse bytes = .ok c → attributesAt? c site = some as →
        name ∈ site.place.annotationNames → a ∈ attributesNamed c.pool name as →
        ¬ IsAnnotationPayload name a.payload → ∃ fault, rename r bytes = .error fault)
      ∧ ∀ name p extra, IsAnnotationPayload name p → extra ≠ [] →
        ¬ IsAnnotationPayload name (p ++ extra) := by
  have hrenamed : ∀ out, rename r bytes = .ok out → ∃ c c', ClassFile.parse bytes = .ok c
      ∧ ClassFile.parse out.bytes = .ok c' ∧ ∀ site, Option.Rel
        ((⟨r, c.pool, out.oldName⟩ : Context).AnnotationsRenamed c'.pool site.place)
        (attributesAt? c site) (attributesAt? c' site) := by
    intro out h
    obtain ⟨c, c', hparse, -, hparse', -, hclass⟩ := rename_spec h
    refine ⟨c, c', hparse, hparse', fun site => ?_⟩
    exact rel_imp (hclass.attributesAt rfl site) fun _ _ h => h.annotationsRenamed
  refine ⟨hrenamed, fun c site as name a hparse hsite hname ha hpayload => ?_,
    fun _ _ _ => not_isAnnotationPayload_append⟩
  cases hresult : rename r bytes with
  | error fault => exact ⟨fault, rfl⟩
  | ok out =>
    obtain ⟨c₀, c', hparse₀, -, hall⟩ := hrenamed out hresult
    obtain rfl : c₀ = c := Except.ok.inj (hparse₀.symm.trans hparse)
    have hlists := hall site
    rw [hsite] at hlists
    generalize attributesAt? c' site = o at hlists
    cases hlists with
    | some hlists =>
      obtain ⟨k, hk⟩ := List.mem_iff_getElem?.1 ha
      obtain ⟨a', -, hrelated⟩ := Context.exists_getElem?_of_forall₂ (hlists name hname) hk
      exact absurd hrelated.isAnnotationPayload hpayload

/-! ## A class with annotations -/

/-- A text of ASCII letters in a pool. -/
def asciiConstant (text : String) : Bytes :=
  1 :: Bytes.bigEndian 2 text.length ++ text.toList.map Char.toUInt8

/-- A class of the name at `name`, with a field and a method. The type of the field and the default
of the method have annotations of the type at `type`, the class has those of the payload. -/
def annotatedClass (count name field type method : UInt8) (more payload : Bytes) : Bytes :=
  [0xca, 0xfe, 0xba, 0xbe, 0, 0, 0, 52, 0, count] ++ asciiConstant "a" ++ [7, 0, name]
    ++ asciiConstant "La;" ++ asciiConstant "RuntimeVisibleAnnotations" ++ asciiConstant "v"
    ++ asciiConstant "RuntimeInvisibleTypeAnnotations" ++ asciiConstant "AnnotationDefault"
    ++ asciiConstant "f" ++ asciiConstant "m" ++ asciiConstant "()V" ++ more
    ++ [0, 32, 0, 2, 0, 0, 0, 0,
      0, 1, 0, 1, 0, field, 0, type, 0, 1, 0, 6, 0, 0, 0, 24,
        0, 2, 19, 1, 0, 0, 0, type, 0, 0, 64, 0, 1, 0, 0, 0, 5, 0, 1, 0, 0, type, 0, 0,
      0, 1, 4, 1, 0, method, 0, 10, 0, 1, 0, 7, 0, 0, 0, 3, 99, 0, type,
      0, 1, 0, 4] ++ Bytes.bigEndian 4 payload.length ++ payload

/-- One annotation, whose element is an array of an annotation, an enum constant and a text. -/
def sampleAnnotations (type : UInt8) : Bytes :=
  [0, 1, 0, type, 0, 1, 0, 5, 91, 0, 3, 64, 0, type, 0, 0, 101, 0, type, 0, 5, 115, 0, 5]

/-- The class `a` before the renaming. -/
def annotatedSample : Bytes := annotatedClass 11 1 8 3 9 [] (sampleAnnotations 3)

/-- The class with four constants more. -/
def renamedAnnotatedSample : RenamedClass where
  oldName := "a"
  name := "b"
  bytes := annotatedClass 15 11 12 13 14 (asciiConstant "b" ++ asciiConstant "g"
    ++ asciiConstant "Lb;" ++ asciiConstant "n") (sampleAnnotations 13)

set_option maxRecDepth 10000 in
theorem rename_annotatedSample :
    rename sampleResolver annotatedSample = .ok renamedAnnotatedSample := by
  decide +kernel

/-- The class with a byte left over behind an empty list of annotations. -/
def spoiledSample : Bytes := annotatedClass 11 1 8 3 9 [] [0, 0, 7]

set_option maxRecDepth 10000 in
theorem exists_parse_spoiledSample : ∃ c a, ClassFile.parse spoiledSample = .ok c
    ∧ a ∈ attributesNamed c.pool "RuntimeVisibleAnnotations" c.attributes
    ∧ a.payload = [0, 0, 7] := by
  have hpayload : (match ClassFile.parse spoiledSample with
      | .ok c => ((attributesNamed c.pool "RuntimeVisibleAnnotations" c.attributes).map
        Attribute.payload).contains [0, 0, 7]
      | .error _ => false) = true := by decide +kernel
  split at hpayload
  · rename_i c hparse
    rw [List.contains_iff_mem] at hpayload
    obtain ⟨a, ha, heq⟩ := List.mem_map.1 hpayload
    exact ⟨c, a, hparse, ha, heq⟩
  · cases hpayload

theorem rename_annotations_sample :
    rename sampleResolver annotatedSample = .ok renamedAnnotatedSample
      ∧ (∃ c c', ClassFile.parse annotatedSample = .ok c
        ∧ ClassFile.parse renamedAnnotatedSample.bytes = .ok c'
        ∧ ∀ site, Option.Rel
          ((⟨sampleResolver, c.pool, "a"⟩ : Context).AnnotationsRenamed c'.pool site.place)
          (attributesAt? c site) (attributesAt? c' site))
      ∧ ∃ fault, rename sampleResolver spoiledSample = .error fault := by
  have hfront : IsAnnotationPayload "RuntimeVisibleAnnotations" [0, 0] :=
    ⟨.annotations [], ⟨by decide, by simp⟩, by simp [AnnotationData.attributeNames], rfl⟩
  have hspoiled := (rename_annotations sampleResolver spoiledSample).2.2 _ _ [7] hfront (by simp)
  obtain ⟨c, a, hparse, ha, hpayload⟩ := exists_parse_spoiledSample
  refine ⟨rename_annotatedSample,
    (rename_annotations sampleResolver annotatedSample).1 _ rename_annotatedSample, ?_⟩
  exact (rename_annotations sampleResolver spoiledSample).2.1 c .ofClass c.attributes
    "RuntimeVisibleAnnotations" a hparse rfl (by decide) ha (hpayload ▸ hspoiled)

end Jarwright.Renaming
