import Jarwright.Proofs.Renaming.Targets

/-!
# Annotations as data

Six attributes hold annotations wherever they stand, and one holds the default of an element of an
annotation, on the method that declares it. `AnnotationData` is what such an attribute says, as
trees, and `encode` is the payload for it. `WellFormed` says which data has a payload: constants are
of the nine types of constants, targets and paths have their forms, and nothing is more than can be
counted.

The written form of a tree ends where the tree says, so a tree can be read off the front of a
payload in one way only (`PrefixFree`), first for values, by induction on them, and then for
everything that holds values. So a payload with bytes left over is no payload
(`not_isAnnotationPayload_append`).
-/

namespace Jarwright.Renaming

open ClassFile

/-! ## Trees with a written form -/

/-- The tags of constants, which are the letters of their types. -/
def constantTags : List UInt8 :=
  ['B', 'C', 'D', 'F', 'I', 'J', 'S', 'Z', 's'].map Char.toUInt8

mutual

/-- A value that can be written. -/
def ElementValue.WellFormed : ElementValue → Prop
  | .constant tag _ => tag ∈ constantTags
  | .enumConstant _ _ => True
  | .classLiteral _ => True
  | .nested _ elements => elements.length < UInt16.size ∧ WellFormedElements elements
  | .array values => values.length < UInt16.size ∧ WellFormedValues values

/-- Elements whose values can be written. -/
def WellFormedElements : List (UInt16 × ElementValue) → Prop
  | [] => True
  | (_, value) :: rest => value.WellFormed ∧ WellFormedElements rest

/-- Values that can be written. -/
def WellFormedValues : List ElementValue → Prop
  | [] => True
  | value :: rest => value.WellFormed ∧ WellFormedValues rest

end

/-- An annotation that can be written. -/
def AnnotationTree.WellFormed (t : AnnotationTree) : Prop :=
  t.elements.length < UInt16.size ∧ WellFormedElements t.elements

/-- An annotation on the use of a type that can be written. -/
structure TypeUse.WellFormed (u : TypeUse) : Prop where
  target : IsTarget u.targetType u.targetInfo
  path : IsPath u.path
  tree : u.tree.WellFormed

/-- What an attribute that holds annotations says. -/
inductive AnnotationData where
  | annotations (trees : List AnnotationTree)
  /-- Annotations for each parameter of a method. -/
  | parameters (lists : List (List AnnotationTree))
  | typeUses (uses : List TypeUse)
  /-- The default of an element. -/
  | default (value : ElementValue)

namespace AnnotationData

/-- The payload; parameters are counted on one byte. -/
def encode : AnnotationData → Bytes
  | annotations trees => putList AnnotationTree.encode trees
  | parameters lists =>
    Bytes.bigEndian 1 lists.length ++ lists.flatMap (putList AnnotationTree.encode)
  | typeUses uses => putList TypeUse.encode uses
  | default value => value.encode

/-- The names of the attributes that hold such data. -/
def attributeNames : AnnotationData → List String
  | annotations _ => ["RuntimeVisibleAnnotations", "RuntimeInvisibleAnnotations"]
  | parameters _ => ["RuntimeVisibleParameterAnnotations", "RuntimeInvisibleParameterAnnotations"]
  | typeUses _ => ["RuntimeVisibleTypeAnnotations", "RuntimeInvisibleTypeAnnotations"]
  | default _ => ["AnnotationDefault"]

/-- Data that can be written. -/
def WellFormed : AnnotationData → Prop
  | annotations trees => trees.length < UInt16.size ∧ ∀ t ∈ trees, t.WellFormed
  | parameters lists => lists.length < UInt8.size
      ∧ ∀ trees ∈ lists, trees.length < UInt16.size ∧ ∀ t ∈ trees, t.WellFormed
  | typeUses uses => uses.length < UInt16.size ∧ ∀ u ∈ uses, u.WellFormed
  | default value => value.WellFormed

end AnnotationData

/-- The payload of an attribute of this name is the written form of its data. -/
def IsAnnotationPayload (name : String) (p : Bytes) : Prop :=
  ∃ d : AnnotationData, d.WellFormed ∧ name ∈ d.attributeNames ∧ p = d.encode

/-! ## What is read off the front of a payload -/

/-- The written form of something that satisfies `P` can be read off in one way, whatever stands
behind it. -/
def PrefixFree {α : Type} (P : α → Prop) (encode : α → Bytes) : Prop :=
  ∀ ⦃x y⦄, P x → P y → ∀ ⦃bs cs⦄, encode x ++ bs = encode y ++ cs → x = y ∧ bs = cs

/-- What is written one after the other is read off in one way, if each item is. -/
theorem PrefixFree.flatMap {α : Type} {P : α → Prop} {encode : α → Bytes}
    (hitem : PrefixFree P encode) {xs ys : List α} {bs cs : Bytes}
    (hlength : xs.length = ys.length) (hxs : ∀ x ∈ xs, P x) (hys : ∀ y ∈ ys, P y)
    (h : xs.flatMap encode ++ bs = ys.flatMap encode ++ cs) : xs = ys ∧ bs = cs := by
  induction xs generalizing ys with
  | nil =>
    obtain rfl := List.eq_nil_of_length_eq_zero hlength.symm
    exact ⟨rfl, h⟩
  | cons x xs ih =>
    obtain ⟨y, ys, rfl⟩ := List.exists_cons_of_length_eq_add_one hlength.symm
    rw [List.flatMap_cons, List.flatMap_cons, List.append_assoc, List.append_assoc] at h
    rw [List.forall_mem_cons] at hxs hys
    obtain ⟨rfl, hrest⟩ := hitem hxs.1 hys.1 h
    obtain ⟨rfl, hend⟩ := ih (Nat.succ.inj hlength) hxs.2 hys.2 hrest
    exact ⟨rfl, hend⟩

/-- So is a list behind its length. -/
theorem PrefixFree.counted {α : Type} {P : α → Prop} {encode : α → Bytes}
    (hitem : PrefixFree P encode) (width : Nat) :
    PrefixFree (fun xs : List α => xs.length < Nat.pow 256 width ∧ ∀ x ∈ xs, P x)
      (fun xs => Bytes.bigEndian width xs.length ++ xs.flatMap encode) := by
  intro xs ys hxs hys bs cs h
  simp only [List.append_assoc] at h
  obtain ⟨hlength, hitems⟩ := (Bytes.bigEndian_append_inj hxs.1 hys.1).1 h
  exact hitem.flatMap hlength hxs.2 hys.2 hitems

/-- The byte in front of a value. -/
def ElementValue.tag : ElementValue → UInt8
  | .constant tag _ => tag
  | .enumConstant _ _ => 101
  | .classLiteral _ => 99
  | .nested _ _ => 64
  | .array _ => 91

theorem ElementValue.tag_eq {v w : ElementValue} {bs cs : Bytes}
    (h : v.encode ++ bs = w.encode ++ cs) : v.tag = w.tag := by
  cases v <;> cases w <;> exact (List.cons.inj h).1

/-- A value that is no constant is not read as one. -/
theorem ElementValue.encode_ne_constant {v : ElementValue} {tag : UInt8} {i : UInt16}
    {bs cs : Bytes} (hv : ∀ tag i, v ≠ .constant tag i) (htag : tag ∈ constantTags) :
    v.encode ++ bs ≠ (constant tag i).encode ++ cs := by
  intro h
  obtain rfl : v.tag = tag := tag_eq h
  cases v with
  | constant tag i => exact hv tag i rfl
  | enumConstant _ _ => exact absurd htag (show (101 : UInt8) ∉ constantTags by decide)
  | classLiteral _ => exact absurd htag (show (99 : UInt8) ∉ constantTags by decide)
  | nested _ _ => exact absurd htag (show (64 : UInt8) ∉ constantTags by decide)
  | array _ => exact absurd htag (show (91 : UInt8) ∉ constantTags by decide)

mutual

/-- A value is read off the front of a payload in one way. -/
theorem ElementValue.encode_append_inj (v w : ElementValue) (hv : v.WellFormed) (hw : w.WellFormed)
    {bs cs : Bytes} (h : v.encode ++ bs = w.encode ++ cs) : v = w ∧ bs = cs := by
  -- the tag in front tells the kinds of values apart; those of constants are none of the others
  match v with
  | .constant tag i =>
    cases w with
    | constant tag' i' =>
      obtain ⟨rfl, hindex⟩ := List.cons.inj h
      obtain ⟨rfl, hend⟩ := Reader.putU2_append_inj.1 hindex
      exact ⟨rfl, hend⟩
    | _ => exact absurd h.symm (ElementValue.encode_ne_constant nofun hv)
  | .enumConstant t n =>
    cases w with
    | enumConstant t' n' =>
      simp only [ElementValue.encode, List.append_assoc, List.cons_append, List.cons.injEq,
        true_and] at h
      obtain ⟨rfl, hname⟩ := Reader.putU2_append_inj.1 h
      obtain ⟨rfl, hend⟩ := Reader.putU2_append_inj.1 hname
      exact ⟨rfl, hend⟩
    | constant tag i => exact absurd h (ElementValue.encode_ne_constant nofun hw)
    | _ => simp [ElementValue.encode] at h
  | .classLiteral d =>
    cases w with
    | classLiteral d' =>
      obtain ⟨-, hdescriptor⟩ := List.cons.inj h
      obtain ⟨rfl, hend⟩ := Reader.putU2_append_inj.1 hdescriptor
      exact ⟨rfl, hend⟩
    | constant tag i => exact absurd h (ElementValue.encode_ne_constant nofun hw)
    | _ => simp [ElementValue.encode] at h
  | .nested t es =>
    cases w with
    | nested t' fs =>
      simp only [ElementValue.encode, List.append_assoc, List.cons_append, List.cons.injEq,
        true_and] at h
      obtain ⟨rfl, hcount⟩ := Reader.putU2_append_inj.1 h
      obtain ⟨hlength, helements⟩ := (Bytes.bigEndian_append_inj hv.1 hw.1).1 hcount
      obtain ⟨rfl, hend⟩ := encodeElements_append_inj es fs hv.2 hw.2 hlength helements
      exact ⟨rfl, hend⟩
    | constant tag i => exact absurd h (ElementValue.encode_ne_constant nofun hw)
    | _ => simp [ElementValue.encode] at h
  | .array vs =>
    cases w with
    | array ws =>
      simp only [ElementValue.encode, List.append_assoc, List.cons_append, List.cons.injEq,
        true_and] at h
      obtain ⟨hlength, hvalues⟩ := (Bytes.bigEndian_append_inj hv.1 hw.1).1 h
      obtain ⟨rfl, hend⟩ := encodeValues_append_inj vs ws hv.2 hw.2 hlength hvalues
      exact ⟨rfl, hend⟩
    | constant tag i => exact absurd h (ElementValue.encode_ne_constant nofun hw)
    | _ => simp [ElementValue.encode] at h

theorem encodeElements_append_inj (es fs : List (UInt16 × ElementValue))
    (hes : WellFormedElements es) (hfs : WellFormedElements fs) (hlength : es.length = fs.length)
    {bs cs : Bytes} (h : encodeElements es ++ bs = encodeElements fs ++ cs) :
    es = fs ∧ bs = cs := by
  match es, fs with
  | [], [] => exact ⟨rfl, h⟩
  | (n, v) :: es, (m, w) :: fs =>
    simp only [encodeElements, List.append_assoc] at h
    obtain ⟨rfl, hvalue⟩ := Reader.putU2_append_inj.1 h
    obtain ⟨rfl, hrest⟩ := v.encode_append_inj w hes.1 hfs.1 hvalue
    obtain ⟨rfl, hend⟩ := encodeElements_append_inj es fs hes.2 hfs.2 (Nat.succ.inj hlength) hrest
    exact ⟨rfl, hend⟩

theorem encodeValues_append_inj (vs ws : List ElementValue) (hvs : WellFormedValues vs)
    (hws : WellFormedValues ws) (hlength : vs.length = ws.length) {bs cs : Bytes}
    (h : encodeValues vs ++ bs = encodeValues ws ++ cs) : vs = ws ∧ bs = cs := by
  match vs, ws with
  | [], [] => exact ⟨rfl, h⟩
  | v :: vs, w :: ws =>
    simp only [encodeValues, List.append_assoc] at h
    obtain ⟨rfl, hrest⟩ := v.encode_append_inj w hvs.1 hws.1 h
    obtain ⟨rfl, hend⟩ := encodeValues_append_inj vs ws hvs.2 hws.2 (Nat.succ.inj hlength) hrest
    exact ⟨rfl, hend⟩

end

theorem AnnotationTree.prefixFree :
    PrefixFree AnnotationTree.WellFormed AnnotationTree.encode := by
  intro t u ht hu bs cs h
  obtain ⟨type, es⟩ := t
  obtain ⟨type', fs⟩ := u
  simp only [encode, List.append_assoc] at h
  obtain ⟨rfl, hcount⟩ := Reader.putU2_append_inj.1 h
  obtain ⟨hlength, helements⟩ := (Bytes.bigEndian_append_inj ht.1 hu.1).1 hcount
  obtain ⟨rfl, hend⟩ := encodeElements_append_inj es fs ht.2 hu.2 hlength helements
  exact ⟨rfl, hend⟩

theorem TypeUse.prefixFree : PrefixFree TypeUse.WellFormed TypeUse.encode := by
  intro t u ht hu bs cs h
  obtain ⟨target, info, path, tree⟩ := t
  obtain ⟨target', info', path', tree'⟩ := u
  simp only [encode, List.append_assoc, List.cons_append, List.cons.injEq] at h
  obtain ⟨rfl, hinfo⟩ := h
  obtain ⟨rfl, hpath⟩ := ht.target.append_inj hu.target hinfo
  obtain ⟨rfl, htree⟩ := ht.path.append_inj hu.path hpath
  obtain ⟨rfl, hend⟩ := AnnotationTree.prefixFree ht.tree hu.tree htree
  exact ⟨rfl, hend⟩

namespace AnnotationData

/-- Data that stands under one name is of one form. -/
inductive SameForm : AnnotationData → AnnotationData → Prop where
  | annotations (ts us : List AnnotationTree) : SameForm (annotations ts) (annotations us)
  | parameters (ps qs : List (List AnnotationTree)) : SameForm (parameters ps) (parameters qs)
  | typeUses (us vs : List TypeUse) : SameForm (typeUses us) (typeUses vs)
  | default (v w : ElementValue) : SameForm (default v) (default w)

theorem sameForm {d e : AnnotationData} {name : String} (hd : name ∈ d.attributeNames)
    (he : name ∈ e.attributeNames) : SameForm d e := by
  cases d <;> cases e <;>
    first
    | constructor
    | (simp only [attributeNames, List.mem_cons, List.not_mem_nil, or_false] at hd he
       rcases hd with rfl | rfl <;> simp at he)

/-- Data that stands under one name is read off in one way. -/
theorem prefixFree (name : String) :
    PrefixFree (fun d => WellFormed d ∧ name ∈ d.attributeNames) encode := by
  rintro d e ⟨hd, hdname⟩ ⟨he, hename⟩ bs cs h
  have htrees := AnnotationTree.prefixFree.counted 2
  cases sameForm hdname hename with
  | annotations ts us =>
    obtain ⟨rfl, hend⟩ := htrees hd he h
    exact ⟨rfl, hend⟩
  | parameters ps qs =>
    obtain ⟨rfl, hend⟩ := htrees.counted 1 hd he h
    exact ⟨rfl, hend⟩
  | typeUses us vs =>
    obtain ⟨rfl, hend⟩ := TypeUse.prefixFree.counted 2 hd he h
    exact ⟨rfl, hend⟩
  | default v w =>
    obtain ⟨rfl, hend⟩ := v.encode_append_inj w hd he h
    exact ⟨rfl, hend⟩

end AnnotationData

/-- A payload with bytes left over is no payload. -/
theorem not_isAnnotationPayload_append {name : String} {p extra : Bytes}
    (h : IsAnnotationPayload name p) (hextra : extra ≠ []) :
    ¬ IsAnnotationPayload name (p ++ extra) := by
  rintro ⟨e, he, hename, heq⟩
  obtain ⟨d, hd, hdname, rfl⟩ := h
  rw [← List.append_nil e.encode] at heq
  exact hextra (AnnotationData.prefixFree name ⟨hd, hdname⟩ ⟨he, hename⟩ heq).2

end Jarwright.Renaming
