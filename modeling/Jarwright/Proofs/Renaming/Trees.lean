import Jarwright.Proofs.Renaming.Steps
import Jarwright.Proofs.Renaming.Targets

/-!
# Renaming annotation trees

A tree is read and written again with other indices of descriptors. `ValueRenamed R` relates two
trees of the same shape: the indices that a visitor is handed are related by `R`, and everything
else is the same. It is the same relation for an annotation (`TreeRenamed`) and for an annotation on
the use of a type (`TypeUseRenamed`).

* `takes_readValue` and its companions: what is read is the written form of some tree, and the
  result is a tree related to it;
* `length_encode`: related trees have written forms of the same length.
-/

namespace Jarwright.Renaming

open ClassFile ConstantPool

variable {R : UInt16 → UInt16 → Prop}

/-! ## Trees of the same shape -/

mutual

/-- Two values of the same shape, with related descriptors. -/
inductive ValueRenamed (R : UInt16 → UInt16 → Prop) : ElementValue → ElementValue → Prop where
  | constant {tag : UInt8} {i : UInt16} : isConstantTag tag = true →
      ValueRenamed R (.constant tag i) (.constant tag i)
  | enumConstant {t t' n : UInt16} : R t t' →
      ValueRenamed R (.enumConstant t n) (.enumConstant t' n)
  | classLiteral {d d' : UInt16} : R d d' → ValueRenamed R (.classLiteral d) (.classLiteral d')
  | nested {t t' : UInt16} {es es' : List (UInt16 × ElementValue)} : R t t' →
      es.length < UInt16.size → ElementsRenamed R es es' →
      ValueRenamed R (.nested t es) (.nested t' es')
  | array {vs vs' : List ElementValue} : vs.length < UInt16.size → ValuesRenamed R vs vs' →
      ValueRenamed R (.array vs) (.array vs')

/-- Elements with the same names and values of the same shapes. -/
inductive ElementsRenamed (R : UInt16 → UInt16 → Prop) :
    List (UInt16 × ElementValue) → List (UInt16 × ElementValue) → Prop where
  | nil : ElementsRenamed R [] []
  | cons {n : UInt16} {v v' : ElementValue} {es es' : List (UInt16 × ElementValue)} :
      ValueRenamed R v v' → ElementsRenamed R es es' →
      ElementsRenamed R ((n, v) :: es) ((n, v') :: es')

/-- Values of the same shapes. -/
inductive ValuesRenamed (R : UInt16 → UInt16 → Prop) :
    List ElementValue → List ElementValue → Prop where
  | nil : ValuesRenamed R [] []
  | cons {v v' : ElementValue} {vs vs' : List ElementValue} :
      ValueRenamed R v v' → ValuesRenamed R vs vs' → ValuesRenamed R (v :: vs) (v' :: vs')

end

/-- Two annotations of the same shape. -/
structure TreeRenamed (R : UInt16 → UInt16 → Prop) (t t' : AnnotationTree) : Prop where
  type : R t.type t'.type
  count : t.elements.length < UInt16.size
  elements : ElementsRenamed R t.elements t'.elements

/-- Two annotations of the same shape on the same use of a type. -/
structure TypeUseRenamed (R : UInt16 → UInt16 → Prop) (u u' : TypeUse) : Prop where
  targetType : u'.targetType = u.targetType
  targetInfo : u'.targetInfo = u.targetInfo
  path : u'.path = u.path
  isTarget : IsTarget u.targetType u.targetInfo
  isPath : IsPath u.path
  tree : TreeRenamed R u.tree u'.tree

/-! ## Their written forms have the same length -/

theorem ElementsRenamed.length_eq {es es' : List (UInt16 × ElementValue)}
    (h : ElementsRenamed R es es') : es'.length = es.length := by
  induction es generalizing es' with
  | nil => cases h; rfl
  | cons e es ih =>
    cases h with
    | cons _ hes => rw [List.length_cons, List.length_cons, ih hes]

theorem ValuesRenamed.length_eq {vs vs' : List ElementValue} (h : ValuesRenamed R vs vs') :
    vs'.length = vs.length := by
  induction vs generalizing vs' with
  | nil => cases h; rfl
  | cons v vs ih =>
    cases h with
    | cons _ hvs => rw [List.length_cons, List.length_cons, ih hvs]

@[simp] theorem length_putU2 (n : UInt16) : (putU2 n).length = 2 := Bytes.length_bigEndian 2 _

mutual

theorem ValueRenamed.length_encode {v v' : ElementValue} (h : ValueRenamed R v v') :
    v'.encode.length = v.encode.length := by
  match h with
  | .constant _ => rfl
  | .enumConstant _ => simp [ElementValue.encode]
  | .classLiteral _ => simp [ElementValue.encode]
  | .nested _ _ hes =>
    have := hes.length_encode
    simp [ElementValue.encode, this]
  | .array _ hvs =>
    have := hvs.length_encode
    simp [ElementValue.encode, this]

theorem ElementsRenamed.length_encode {es es' : List (UInt16 × ElementValue)}
    (h : ElementsRenamed R es es') : (encodeElements es').length = (encodeElements es).length := by
  match h with
  | .nil => rfl
  | .cons hv hes =>
    have hv := hv.length_encode
    have hes := hes.length_encode
    simp [encodeElements, hv, hes]

theorem ValuesRenamed.length_encode {vs vs' : List ElementValue} (h : ValuesRenamed R vs vs') :
    (encodeValues vs').length = (encodeValues vs).length := by
  match h with
  | .nil => rfl
  | .cons hv hvs =>
    have hv := hv.length_encode
    have hvs := hvs.length_encode
    simp [encodeValues, hv, hvs]

end

theorem TreeRenamed.length_encode {t t' : AnnotationTree} (h : TreeRenamed R t t') :
    t'.encode.length = t.encode.length := by
  have := h.elements.length_encode
  simp [AnnotationTree.encode, this]

theorem TypeUseRenamed.length_encode {u u' : TypeUse} (h : TypeUseRenamed R u u') :
    u'.encode.length = u.encode.length := by
  have := h.tree.length_encode
  simp [TypeUse.encode, h.targetInfo, h.path, this]

/-- Lists of structures of the same lengths are written with the same length. -/
theorem length_putList_eq {α : Type} {encode : α → Bytes} {S : α → α → Prop}
    (h : ∀ x y, S x y → (encode y).length = (encode x).length) {xs ys : List α}
    (hxs : List.Forall₂ S xs ys) : (putList encode ys).length = (putList encode xs).length := by
  have hflat : (ys.flatMap encode).length = (xs.flatMap encode).length := by
    induction hxs with
    | nil => rfl
    | cons hx _ ih => rw [List.flatMap_cons, List.flatMap_cons, List.length_append,
        List.length_append, h _ _ hx, ih]
  simp only [putList, List.length_append, Bytes.length_bigEndian, hflat]

/-! ## Reading and writing again -/

section Reading

variable {final : ConstantPool} {visit : UInt16 → Edit UInt16}

/-- Elements from the parts that were taken for each of them. -/
theorem exists_elements {parts : List Bytes} {es' : List (UInt16 × ElementValue)}
    (h : List.Forall₂ (fun part (e' : UInt16 × ElementValue) =>
      ∃ v, part = putU2 e'.1 ++ v.encode ∧ ValueRenamed R v e'.2) parts es') :
    ∃ es, parts.flatten = encodeElements es ∧ ElementsRenamed R es es' := by
  induction h with
  | nil => exact ⟨[], rfl, .nil⟩
  | @cons part e' _ _ hpart _ ih =>
    obtain ⟨v, rfl, hv⟩ := hpart
    obtain ⟨es, hflatten, hes⟩ := ih
    exact ⟨(e'.1, v) :: es, by rw [List.flatten_cons, hflatten, encodeElements], .cons hv hes⟩

/-- Values from the parts that were taken for each of them. -/
theorem exists_values {parts : List Bytes} {vs' : List ElementValue}
    (h : List.Forall₂ (fun part v' => ∃ v : ElementValue, part = v.encode ∧ ValueRenamed R v v')
      parts vs') :
    ∃ vs, parts.flatten = encodeValues vs ∧ ValuesRenamed R vs vs' := by
  induction h with
  | nil => exact ⟨[], rfl, .nil⟩
  | cons hpart _ ih =>
    obtain ⟨v, rfl, hv⟩ := hpart
    obtain ⟨vs, hflatten, hvs⟩ := ih
    exact ⟨v :: vs, by rw [List.flatten_cons, hflatten, encodeValues], .cons hv hvs⟩

/-- Counted elements are read as counted elements. -/
theorem takes_elements {value : Payload ElementValue}
    (hvalue : Takes final value (fun taken v' => ∃ v : ElementValue, taken = v.encode
      ∧ ValueRenamed R v v')) :
    Takes final
      (do
        let count ← Payload.read Reader.u2
        Reader.times count.toNat do
          let name ← Payload.read Reader.u2
          let value ← value
          return (name, value))
      (fun taken es' => ∃ es, taken = Bytes.bigEndian 2 es.length ++ encodeElements es
        ∧ es.length < UInt16.size ∧ ElementsRenamed R es es') := by
  have hitem : Takes final
      (do let name ← Payload.read Reader.u2; let value ← value; return (name, value))
      (fun part e' => ∃ v, part = putU2 e'.1 ++ v.encode ∧ ValueRenamed R v e'.2) := by
    refine (Takes.u2_bind fun name => hvalue.bind_pure fun value => (name, value)).mono ?_
    rintro part e' ⟨name, _, rfl, v', ⟨v, rfl, hv⟩, rfl⟩
    exact ⟨v, rfl, hv⟩
  refine (Takes.u2_bind fun count => hitem.times count.toNat).mono ?_
  rintro taken es' ⟨count, _, rfl, hlen, parts, rfl, hparts⟩
  obtain ⟨es, hflatten, hes⟩ := exists_elements hparts
  have hcount : es.length = count.toNat := hes.length_eq.symm.trans hlen
  exact ⟨es, by rw [hflatten, hcount, putU2], hcount ▸ count.toNat_lt, hes⟩

/-- Counted values are read as counted values. -/
theorem takes_values {value : Payload ElementValue}
    (hvalue : Takes final value (fun taken v' => ∃ v : ElementValue, taken = v.encode
      ∧ ValueRenamed R v v')) :
    Takes final (do let count ← Payload.read Reader.u2; Reader.times count.toNat value)
      (fun taken vs' => ∃ vs, taken = Bytes.bigEndian 2 vs.length ++ encodeValues vs
        ∧ vs.length < UInt16.size ∧ ValuesRenamed R vs vs') := by
  refine (Takes.u2_bind fun count => hvalue.times count.toNat).mono ?_
  rintro taken vs' ⟨count, _, rfl, hlen, parts, rfl, hparts⟩
  obtain ⟨vs, hflatten, hvs⟩ := exists_values hparts
  have hcount : vs.length = count.toNat := hvs.length_eq.symm.trans hlen
  exact ⟨vs, by rw [hflatten, hcount, putU2], hcount ▸ count.toNat_lt, hvs⟩

variable (hvisit : ∀ i, Yields final (visit i) (R i))

include hvisit

/-- A value is read from its written form, and the result is a value of the same shape. -/
theorem takes_readValue (depth : Nat) :
    Takes final (readValue visit depth)
      (fun taken v' => ∃ v : ElementValue, taken = v.encode ∧ ValueRenamed R v v') := by
  induction depth with
  | zero => exact (Takes.edit (Yields.throw _ (fun _ => False))).mono fun _ _ h => h.2.elim
  | succ depth ih =>
    rw [readValue]
    -- the bytes behind the tag are those of a value, once the tag is put before them
    refine (Takes.u1_bind (q := fun tag taken v' => ∃ v : ElementValue, tag :: taken = v.encode
      ∧ ValueRenamed R v v') fun tag => ?_).mono ?_
    · by_cases hconstant : isConstantTag tag = true
      · rw [if_pos hconstant]
        refine (Takes.u2_bind fun i => Takes.pure _).mono ?_
        rintro taken v' ⟨i, _, rfl, rfl, rfl⟩
        exact ⟨.constant tag i, by simp [ElementValue.encode], .constant hconstant⟩
      rw [if_neg hconstant]
      by_cases henum : tag = 101
      · rw [if_pos henum]
        refine (Takes.u2_bind fun t => Takes.edit_bind (hvisit t) fun t' =>
          Takes.u2_bind fun n => Takes.pure _).mono ?_
        rintro taken v' ⟨t, _, rfl, t', ht, n, _, rfl, rfl, rfl⟩
        exact ⟨.enumConstant t n, by simp [ElementValue.encode, henum], .enumConstant ht⟩
      rw [if_neg henum]
      by_cases hclass : tag = 99
      · rw [if_pos hclass]
        refine (Takes.u2_bind fun d => Takes.edit_bind (hvisit d) fun d' =>
          Takes.pure _).mono ?_
        rintro taken v' ⟨d, _, rfl, d', hd, rfl, rfl⟩
        exact ⟨.classLiteral d, by simp [ElementValue.encode, hclass], .classLiteral hd⟩
      rw [if_neg hclass]
      by_cases hnested : tag = 64
      · rw [if_pos hnested]
        refine (Takes.u2_bind fun t => Takes.edit_bind (hvisit t) fun t' =>
          ((takes_elements ih).bind_pure fun es => ElementValue.nested t' es).assoc).mono ?_
        rintro taken v' ⟨t, _, rfl, t', ht, es', ⟨es, rfl, hcount, hes⟩, rfl⟩
        exact ⟨.nested t es, by simp [ElementValue.encode, hnested], .nested ht hcount hes⟩
      rw [if_neg hnested]
      by_cases harray : tag = 91
      · rw [if_pos harray]
        refine ((takes_values ih).bind_pure fun vs => ElementValue.array vs).assoc.mono ?_
        rintro taken v' ⟨vs', ⟨vs, rfl, hcount, hvs⟩, rfl⟩
        exact ⟨.array vs, by simp [ElementValue.encode, harray], .array hcount hvs⟩
      · rw [if_neg harray]
        exact (Takes.edit (Yields.throw _ (fun _ => False))).mono fun _ _ h => h.2.elim
    · rintro taken v' ⟨tag, rest, rfl, h⟩
      exact h

theorem takes_readElementValue :
    Takes final (readElementValue visit)
      (fun taken v' => ∃ v : ElementValue, taken = v.encode ∧ ValueRenamed R v v') :=
  fun bs _ _ _ _ hwf h => takes_readValue hvisit bs.length hwf h

/-- An annotation is read from its written form, and the result is one of the same shape. -/
theorem takes_readTree :
    Takes final (readTree visit)
      (fun taken t' => ∃ t : AnnotationTree, taken = t.encode ∧ TreeRenamed R t t') := by
  refine (Takes.u2_bind fun t => Takes.edit_bind (hvisit t) fun t' =>
    ((takes_elements (takes_readElementValue hvisit)).bind_pure fun es =>
      AnnotationTree.mk t' es).assoc).mono ?_
  rintro taken tree ⟨t, _, rfl, t', ht, es', ⟨es, rfl, hcount, hes⟩, rfl⟩
  exact ⟨⟨t, es⟩, by simp [AnnotationTree.encode], ht, hcount, hes⟩

/-- Annotations are read as annotations of the same shapes. -/
theorem takes_readTrees :
    Takes final (readTrees visit)
      (fun taken ts' => ∃ ts, taken = putList AnnotationTree.encode ts
        ∧ ts.length < UInt16.size ∧ List.Forall₂ (TreeRenamed R) ts ts') :=
  Takes.counted (takes_readTree hvisit)

theorem takes_readTypeUse :
    Takes final (readTypeUse visit)
      (fun taken u' => ∃ u : TypeUse, taken = u.encode ∧ TypeUseRenamed R u u') := by
  have htarget (targetType : UInt8) : Takes final (Payload.read (readTarget targetType))
      (fun taken info => taken = info ∧ IsTarget targetType info) :=
    Takes.read fun _ _ _ h =>
      have h := readTarget_eq_ok.1 h
      ⟨_, h.2, rfl, h.1⟩
  have hpath : Takes final (Payload.read readPath)
      (fun taken path => taken = path ∧ IsPath path) :=
    Takes.read fun _ _ _ h =>
      have h := readPath_eq_ok.1 h
      ⟨_, h.2, rfl, h.1⟩
  refine (Takes.u1_bind fun targetType => (htarget targetType).bind fun info =>
    hpath.bind fun path => (takes_readTree hvisit).bind_pure fun tree =>
      TypeUse.mk targetType info path tree).mono ?_
  rintro taken u' ⟨targetType, _, rfl, info, _, _, rfl, ⟨rfl, hinfo⟩, path, _, _, rfl,
    ⟨rfl, hsteps⟩, tree, ⟨t, rfl, ht⟩, rfl⟩
  exact ⟨⟨targetType, info, path, t⟩, by simp [TypeUse.encode], rfl, rfl, rfl, hinfo, hsteps, ht⟩

theorem takes_readTypeUses :
    Takes final (readTypeUses visit)
      (fun taken us' => ∃ us, taken = putList TypeUse.encode us
        ∧ us.length < UInt16.size ∧ List.Forall₂ (TypeUseRenamed R) us us') :=
  Takes.counted (takes_readTypeUse hvisit)

/-- Lists of annotations for the parameters of a method, which are counted on one byte. -/
theorem takes_readParameters :
    Takes final (readParameters visit)
      (fun taken ps' => ∃ ps : List (List AnnotationTree),
        taken = Bytes.bigEndian 1 ps.length ++ ps.flatMap (putList AnnotationTree.encode)
          ∧ ps.length < UInt8.size ∧ List.Forall₂ (fun ts ts' => ts.length < UInt16.size
            ∧ List.Forall₂ (TreeRenamed R) ts ts') ps ps') := by
  refine (Takes.u1_bind fun count => (takes_readTrees hvisit).times count.toNat).mono ?_
  rintro taken ps' ⟨count, _, rfl, hlen, parts, rfl, hparts⟩
  obtain ⟨ps, hflatten, hps⟩ : ∃ ps, parts.flatten = ps.flatMap (putList AnnotationTree.encode)
      ∧ List.Forall₂ (fun ts ts' => ts.length < UInt16.size
        ∧ List.Forall₂ (TreeRenamed R) ts ts') ps ps' := Takes.exists_flatMap hparts
  have hlength : ps.length = count.toNat := hps.length_eq.trans hlen
  refine ⟨ps, ?_, hlength ▸ count.toNat_lt, hps⟩
  have hcount : Bytes.bigEndian 1 ps.length = [count] := by
    rw [hlength]
    simp [Bytes.bigEndian]
  rw [hflatten, hcount, List.singleton_append]

end Reading

end Jarwright.Renaming
