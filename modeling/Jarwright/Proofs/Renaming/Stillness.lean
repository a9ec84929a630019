import Jarwright.Proofs.ClassFile.Descriptor
import Jarwright.Proofs.ClassFile.Signature
import Jarwright.Proofs.Renaming.InnerClasses

/-!
# Renamings that rename nothing

A renaming decides at every index whether what stands there has a new form. This file follows the
renaming that renames nothing through all these decisions, of which each has to say no.

* `Still e post`: an edit that succeeds leaves its pool as it is, and its result satisfies `post`.
  The rules follow the text of an edit, as they do for `Yields`, but there is none for `intern` or
  `set`: these two are what a renaming that renames nothing never comes to.
* `exchangeText` and the other edits of one index answer the index that they are given.
* Trees are read without a change of the pool, and relations between trees, payloads and attributes
  before and after become equalities (`LeafRenamed.eq`, `ClassPayloadRenamed.eq`).

Lists of inner classes are the exception: there a simple name is found anew and not compared with an
old binary name. They stay if their entries are called by the ends of binary names
(`InnerClass.IsPlain`).
-/

namespace Jarwright.Renaming

open ClassFile ConstantPool

variable {α β : Type}

/-! ## Edits that change nothing -/

/-- An edit that succeeds leaves the pool as it is, and its result satisfies `post`. -/
def Still (e : Edit α) (post : α → Prop) : Prop :=
  ∀ ⦃pool x pool'⦄, e pool = .ok x pool' → pool' = pool ∧ post x

/-- A step that takes bytes off a payload, whatever it is, and leaves the pool as it is. -/
def StillStep (step : Payload α) : Prop := ∀ bs, Still (step bs) fun _ => True

namespace Still

variable {p : α → Prop} {q : β → Prop}

theorem pure {x : α} (h : p x) : Still (pure x) p := by
  intro pool y pool' he
  obtain ⟨rfl, rfl⟩ := pure_eq_ok.1 he
  exact ⟨rfl, h⟩

theorem throw (fault : Fault) : Still (throw fault) p := fun _ _ _ h => absurd h throw_ne_ok

theorem bind {e : Edit α} {f : α → Edit β} (he : Still e p) (hf : ∀ x, p x → Still (f x) q) :
    Still (e >>= f) q := by
  intro pool y pool' h
  obtain ⟨x, mid, hx, hy⟩ := bind_eq_ok.1 h
  obtain ⟨rfl, hp⟩ := he hx
  exact hf x hp hy

theorem lookUp (r : Except Fault α) : Still (lookUp r) (r = .ok ·) := by
  intro pool x pool' he
  unfold Renaming.lookUp at he
  split at he
  · cases he
    exact ⟨rfl, rfl⟩
  · cases he

/-- A payload that is taken apart without a change of the pool. -/
theorem run {layout : Layout} {step : Payload α} {payload : Bytes} {post : α × Bytes → Prop}
    (h : Still (step payload) post) :
    Still (Payload.run layout step payload) fun x => post (x, []) := by
  intro pool x pool' he
  unfold Payload.run at he
  split at he
  · rename_i hstep
    cases he
    exact h hstep
  · cases he
  · cases he

/-- An edit as a step takes nothing. -/
theorem edit {e : Edit α} (he : Still e p) (bs : Bytes) :
    Still (Payload.edit e bs) fun r => p r.1 ∧ r.2 = bs := by
  intro pool x pool' h
  unfold Payload.edit at h
  split at h
  · rename_i hx
    cases h
    obtain ⟨rfl, hp⟩ := he hx
    exact ⟨rfl, hp, rfl⟩
  · cases h

end Still

namespace StillStep

theorem pure (x : α) : StillStep (pure x) := fun _ => Still.pure (x := (x, _)) trivial

theorem bind {step : Payload α} {f : α → Payload β} (hs : StillStep step)
    (hf : ∀ x, StillStep (f x)) : StillStep (step >>= f) := fun bs =>
  Still.bind (hs bs) fun r _ => hf r.1 r.2

theorem read (reader : Reader α) : StillStep (Payload.read reader) := by
  intro bs pool x pool' h
  unfold Payload.read at h
  split at h
  · cases h
    exact ⟨rfl, trivial⟩
  · cases h

/-- What an edit answers is known to the steps behind it. -/
theorem edit_bind {e : Edit α} {post : α → Prop} {f : α → Payload β} (he : Still e post)
    (hf : ∀ x, post x → StillStep (f x)) : StillStep (Payload.edit e >>= f) :=
  fun bs => (Still.edit he bs).bind fun r hr => hf r.1 hr.1 r.2

theorem edit {e : Edit α} {post : α → Prop} (he : Still e post) : StillStep (Payload.edit e) := by
  have h := edit_bind he fun x _ => pure x
  rwa [bind_pure] at h

theorem times {item : Payload α} (h : StillStep item) (n : Nat) :
    StillStep (Reader.times n item) := by
  induction n with
  | zero => exact pure []
  | succ n ih =>
    rw [Reader.times_succ]
    exact h.bind fun x => ih.bind fun xs => pure (x :: xs)

theorem run {layout : Layout} {step : Payload α} (h : StillStep step) (payload : Bytes) :
    Still (Payload.run layout step payload) fun _ => True := (h payload).run

end StillStep

/-! ## Trees -/

section Trees

variable {visit : UInt16 → Edit UInt16} {post : UInt16 → UInt16 → Prop}
  (hvisit : ∀ i, Still (visit i) (post i))

include hvisit

theorem still_readValue (depth : Nat) : StillStep (readValue visit depth) := by
  have hvisit (i : UInt16) : StillStep (Payload.edit (visit i)) := .edit (hvisit i)
  induction depth with
  | zero => exact .edit (Still.throw (p := fun _ => True) _)
  | succ depth ih =>
    rw [readValue]
    refine .bind (.read _) fun tag => ?_
    split
    · exact .bind (.read _) fun i => .pure _
    split
    · exact .bind (.read _) fun t => .bind (hvisit t) fun t' => .bind (.read _) fun n => .pure _
    split
    · exact .bind (.read _) fun d => .bind (hvisit d) fun d' => .pure _
    split
    · have helement : StillStep (do
          let name ← Payload.read Reader.u2
          let value ← readValue visit depth
          return (name, value)) :=
        .bind (.read _) fun n => .bind ih fun v => .pure _
      exact .bind (.read _) fun t => .bind (hvisit t) fun t' => .bind (.read _) fun count =>
        .bind (helement.times _) fun es => .pure _
    split
    · exact .bind (.read _) fun count => .bind (ih.times _) fun vs => .pure _
    · exact .edit (Still.throw (p := fun _ => True) _)

theorem still_readElementValue : StillStep (readElementValue visit) :=
  fun bs => still_readValue hvisit bs.length bs

theorem still_readTree : StillStep (readTree visit) := by
  have helement : StillStep (do
      let name ← Payload.read Reader.u2
      let value ← readElementValue visit
      return (name, value)) :=
    .bind (.read _) fun n => .bind (still_readElementValue hvisit) fun v => .pure _
  exact .bind (.read _) fun t => .bind (.edit (hvisit t)) fun t' => .bind (.read _) fun count =>
    .bind (helement.times _) fun es => .pure _

theorem still_readTrees : StillStep (readTrees visit) :=
  .bind (.read _) fun count => (still_readTree hvisit).times count.toNat

theorem still_readParameters : StillStep (readParameters visit) :=
  .bind (.read _) fun count => (still_readTrees hvisit).times count.toNat

theorem still_readTypeUses : StillStep (readTypeUses visit) := by
  have huse : StillStep (readTypeUse visit) :=
    .bind (.read _) fun targetType => .bind (.read _) fun info => .bind (.read _) fun path =>
      .bind (still_readTree hvisit) fun tree => .pure _
  exact .bind (.read _) fun count => huse.times count.toNat

end Trees

/-- A number is read from its written form. -/
theorem Payload.read_u2_bind {f : UInt16 → Payload β} (n : UInt16) (rest : Bytes) :
    (Payload.read Reader.u2 >>= f) (putU2 n ++ rest) = f n rest := by
  have hread : Payload.read Reader.u2 (putU2 n ++ rest) = pure (n, rest) := by
    funext pool
    rw [Payload.read, Reader.u2_eq_ok.2 rfl]
    rfl
  exact (congrArg (· >>= fun r => f r.1 r.2) hread).trans (pure_bind ..)

/-! ## Trees of the same shape with the same descriptors -/

section Equal

variable {R : UInt16 → UInt16 → Prop}

mutual

theorem ValueRenamed.eq (hR : ∀ i i', R i i' → i' = i) {v v' : ElementValue}
    (h : ValueRenamed R v v') : v' = v := by
  match h with
  | .constant _ => rfl
  | .enumConstant ht => rw [hR _ _ ht]
  | .classLiteral hd => rw [hR _ _ hd]
  | .nested ht _ hes => rw [hR _ _ ht, hes.eq hR]
  | .array _ hvs => rw [hvs.eq hR]

theorem ElementsRenamed.eq (hR : ∀ i i', R i i' → i' = i) {es es' : List (UInt16 × ElementValue)}
    (h : ElementsRenamed R es es') : es' = es := by
  match h with
  | .nil => rfl
  | .cons hv hes => rw [hv.eq hR, hes.eq hR]

theorem ValuesRenamed.eq (hR : ∀ i i', R i i' → i' = i) {vs vs' : List ElementValue}
    (h : ValuesRenamed R vs vs') : vs' = vs := by
  match h with
  | .nil => rfl
  | .cons hv hvs => rw [hv.eq hR, hvs.eq hR]

end

variable (hR : ∀ i i', R i i' → i' = i)

include hR

theorem TreeRenamed.eq {t t' : AnnotationTree} (h : TreeRenamed R t t') : t' = t := by
  obtain ⟨type, elements⟩ := t
  obtain ⟨type', elements'⟩ := t'
  obtain rfl : type' = type := hR _ _ h.type
  obtain rfl : elements' = elements := h.elements.eq hR
  rfl

theorem TypeUseRenamed.eq {u u' : TypeUse} (h : TypeUseRenamed R u u') : u' = u := by
  obtain ⟨targetType, targetInfo, path, tree⟩ := u
  obtain ⟨targetType', targetInfo', path', tree'⟩ := u'
  obtain rfl : targetType' = targetType := h.targetType
  obtain rfl : targetInfo' = targetInfo := h.targetInfo
  obtain rfl : path' = path := h.path
  obtain rfl : tree' = tree := h.tree.eq hR
  rfl

end Equal

/-- Lists of related items are the same when related items are. -/
theorem eq_of_forall₂ {R : α → α → Prop} {xs ys : List α} (h : List.Forall₂ R xs ys)
    (hR : ∀ x y, x ∈ xs → R x y → y = x) : ys = xs := by
  induction h with
  | nil => rfl
  | cons hx _ ih =>
    rw [hR _ _ (List.mem_cons_self ..) hx,
      ih fun x y hmem => hR x y (List.mem_cons_of_mem _ hmem)]

/-! ## Simple names -/

/-- An entry of a list of inner classes is called by what follows the last dollar sign and any
digits of its binary name, unless that is nothing. -/
def InnerClass.IsPlain (e : InnerClass) (pool : ConstantPool) : Prop :=
  e.name ≠ 0 → ∀ binary simple, pool.className e.inner = .ok binary →
    pool.utf8 e.name = .ok simple → '$' ∈ binary.toList → simpleTail binary.toList ≠ [] →
      simple.toList = simpleTail binary.toList

theorem newSimpleName_eq_self {binary simple : String}
    (h : '$' ∈ binary.toList → simpleTail binary.toList ≠ [] →
      simple.toList = simpleTail binary.toList) : newSimpleName binary simple = simple := by
  unfold newSimpleName
  split
  · rename_i hdollar
    split
    · rfl
    · rename_i hne
      rw [← h (by simpa using hdollar) hne, String.ofList_toList]
  · rfl

namespace Context

variable {ctx : Context} {final : ConstantPool} (hid : ctx.resolver = Resolver.identity)

/-! ## Edits of one index -/

theorem still_exchangeText {i : UInt16} {text : String} (h : ctx.oldPool.utf8 i = .ok text) :
    Still (ctx.exchangeText i text) (· = i) := by
  refine (Still.lookUp _).bind fun old hold => ?_
  obtain rfl : old = text := Except.ok.inj (hold.symm.trans h)
  rw [if_pos rfl]
  exact .pure rfl

include hid

theorem descriptor_eq {d d' : String} (h : ctx.resolver.descriptor d = .ok d') : d' = d := by
  rw [hid] at h
  exact Descriptor.eq_of_map_id h

theorem memberName_eq (kind : MemberKind) (owner name descriptor : String) :
    ctx.memberName kind owner name descriptor = name := by
  cases kind <;> rw [memberName, newMemberName, hid] <;> rfl

theorem still_exchangeDescriptor (i : UInt16) : Still (ctx.exchangeDescriptor i) (· = i) := by
  refine (Still.lookUp _).bind fun old hold => (Still.lookUp _).bind fun new hnew => ?_
  obtain rfl := descriptor_eq hid hnew
  exact still_exchangeText hold

theorem still_memberRef (kind : MemberKind) (owner member : UInt16) :
    Still (ctx.memberRef kind owner member) (· = none) := by
  refine (Still.lookUp _).bind fun ownerName _ => (Still.lookUp _).bind fun pair _ =>
    (Still.lookUp _).bind fun newDescriptor hnew => ?_
  rw [if_pos ⟨memberName_eq hid .., descriptor_eq hid hnew⟩]
  exact .pure rfl

theorem still_dynamicRef (member : UInt16) : Still (ctx.dynamicRef member) (· = none) := by
  refine (Still.lookUp _).bind fun pair _ => (Still.lookUp _).bind fun newDescriptor hnew => ?_
  rw [if_pos (descriptor_eq hid hnew)]
  exact .pure rfl

/-! ## The pool -/

omit hid in
theorem still_redirect {e : Edit (Option UInt16)} (he : Still e (· = none)) (i : UInt16)
    (entry : UInt16 → Constant) :
    Still (do redirect i entry (← e)) fun _ => True := by
  refine he.bind fun o ho => ?_
  rw [ho]
  exact .pure trivial

theorem still_renameConstant (i : UInt16) (c : Constant) :
    Still (ctx.renameConstant i c) fun _ => True := by
  cases c with
  | classRef name =>
    refine (Still.lookUp _).bind fun old _ => (Still.lookUp _).bind fun new hnew => ?_
    rw [hid] at hnew
    rw [if_pos (ClassName.eq_of_map_id hnew)]
    exact .pure trivial
  | fieldRef owner member => exact still_redirect (still_memberRef hid ..) _ _
  | methodRef owner member => exact still_redirect (still_memberRef hid ..) _ _
  | interfaceMethodRef owner member => exact still_redirect (still_memberRef hid ..) _ _
  | methodType descriptor =>
    refine (Still.lookUp _).bind fun old _ => (Still.lookUp _).bind fun new hnew => ?_
    rw [if_pos (descriptor_eq hid hnew)]
    exact .pure trivial
  | invokeDynamic bootstrap member => exact still_redirect (still_dynamicRef hid _) _ _
  | dynamic bootstrap member => exact still_redirect (still_dynamicRef hid _) _ _
  | _ => exact .pure trivial

theorem still_renameConstants (entries : List (UInt16 × Constant)) :
    Still (ctx.renameConstants entries) fun _ => True := by
  induction entries with
  | nil => exact .pure trivial
  | cons entry rest ih => exact (still_renameConstant hid entry.1 entry.2).bind fun _ _ => ih

/-! ## Payloads in any place -/

theorem still_signaturePayload (site : Signature.Site) (payload : Bytes) :
    Still (ctx.signaturePayload site payload) fun _ => True := by
  refine (Still.lookUp _).bind fun i _ => (Still.lookUp _).bind fun old hold =>
    (Still.lookUp _).bind fun new hnew => ?_
  rw [hid] at hnew
  obtain rfl := Signature.eq_of_map_id hnew
  exact (still_exchangeText hold).bind fun _ _ => .pure trivial

theorem still_leafPayload (site : Signature.Site) (name : String) (payload : Bytes) :
    Still (ctx.leafPayload site name payload) fun _ => True := by
  have hvisit := still_exchangeDescriptor hid
  unfold leafPayload
  split
  · exact still_signaturePayload hid site payload
  split
  · exact ((still_readTrees hvisit).run payload).bind fun _ _ => .pure trivial
  split
  · exact ((still_readParameters hvisit).run payload).bind fun _ _ => .pure trivial
  split
  · exact ((still_readTypeUses hvisit).run payload).bind fun _ _ => .pure trivial
  · exact .pure trivial

omit hid in
theorem TextRenamed.eq {f : String → Except Fault String} (hf : ∀ {s s'}, f s = .ok s' → s' = s)
    {i i' : UInt16} (h : ctx.TextRenamed final f i i') : i' = i := by
  obtain ⟨old, new, hmap, hex⟩ := h
  exact hex.same (hf hmap)

theorem LeafRenamed.eq {site : Signature.Site} {name : String} {p p' : Bytes}
    (h : ctx.LeafRenamed final site name p p') : p' = p := by
  have htype (i i' : UInt16) : ctx.DescriptorRenamed final i i' → i' = i :=
    TextRenamed.eq (descriptor_eq hid)
  have htree (t t' : AnnotationTree) : TreeRenamed (ctx.DescriptorRenamed final) t t' → t' = t :=
    TreeRenamed.eq htype
  cases h with
  | signature h =>
    rw [TextRenamed.eq (fun hmap => Signature.eq_of_map_id (hid ▸ hmap)) h]
  | annotations _ _ hts => rw [eq_of_forall₂ hts fun t t' _ => htree t t']
  | parameters _ _ hps =>
    rw [eq_of_forall₂ hps fun ts ts' _ h => eq_of_forall₂ h.2 fun t t' _ => htree t t']
  | typeUses _ _ hus => rw [eq_of_forall₂ hus fun _ _ _ h => h.eq htype]
  | other _ => rfl

/-- A payload in any place stays as it is. -/
theorem leafPayload_still (hwf : ctx.oldPool.WellFormed) {site : Signature.Site} {name : String}
    {p p' : Bytes} {pool : ConstantPool}
    (h : ctx.leafPayload site name p ctx.oldPool = .ok p' pool) : pool = ctx.oldPool ∧ p' = p := by
  obtain ⟨rfl, -⟩ := still_leafPayload hid site name p h
  exact ⟨rfl, LeafRenamed.eq hid
    ((yields_leafPayload (.refl _) site name p hwf h).2 (.refl _))⟩

/-! ## Attributes with structure -/

omit hid in
theorem still_editPayloads {stripped : List String} {payload : String → Bytes → Edit Bytes}
    (h : ∀ name p, Still (payload name p) fun _ => True) (as : List Attribute) :
    Still (editPayloads ctx stripped payload as) fun _ => True := by
  induction as with
  | nil => exact .pure trivial
  | cons a as ih =>
    rw [editPayloads]
    refine (Still.lookUp _).bind fun name _ => ?_
    split
    · exact ih
    · exact (h name a.payload).bind fun _ _ => ih.bind fun _ _ => .pure trivial

omit hid in
theorem AttributesRenamed.eq {R : String → Bytes → Bytes → Prop} {as as' : List Attribute}
    (hR : ∀ {name p p'}, R name p p' → p' = p) (h : ctx.AttributesRenamed final [] R as as') :
    as' = as := by
  induction h with
  | nil => rfl
  | dropped _ hstripped _ _ => simp at hstripped
  | @kept a a' _ _ _ _ _ hname _ hp _ ih =>
    obtain ⟨index, payload⟩ := a
    obtain ⟨index', payload'⟩ := a'
    obtain rfl : index' = index := hname
    obtain rfl : payload' = payload := hR hp
    rw [ih]

theorem still_readEnclosingMethod : StillStep ctx.readEnclosingMethod := by
  refine .bind (.read _) fun owner => .bind (.read _) fun m => ?_
  split
  · exact .pure _
  · exact .bind (.edit (still_memberRef hid ..)) fun _ => .pure _

theorem MemberRenamedAt.eq {kind : MemberKind} {owner i i' : UInt16}
    (h : ctx.MemberRenamedAt final kind owner i i') : i' = i := by
  obtain ⟨ownerName, -, name, descriptor, newDescriptor, hnew, -, -, hsame⟩ := h
  exact hsame ⟨memberName_eq hid .., descriptor_eq hid hnew⟩

/-- The name and the descriptor of what the class itself declares stay. -/
theorem DeclarationRenamed.eq {kind : MemberKind} {n d n' d' : UInt16}
    (h : ctx.DeclarationRenamed final kind n d n' d') : n' = n ∧ d' = d := by
  obtain ⟨name, descriptor, newDescriptor, hnew, hn, hd⟩ := h
  exact ⟨hn.same (memberName_eq hid ..), hd.same (descriptor_eq hid hnew)⟩

theorem still_readComponent : StillStep ctx.readComponent := by
  refine .bind (.read _) fun n => .bind (.read _) fun d =>
    .edit_bind (Still.lookUp _) fun oldName hn =>
    .edit_bind (Still.lookUp _) fun oldDescriptor hd =>
    .edit_bind (Still.lookUp _) fun newDescriptor hnew => ?_
  obtain rfl := descriptor_eq hid hnew
  rw [show ctx.resolver.field ctx.owner oldName newDescriptor = oldName by rw [hid]; rfl]
  exact .edit_bind (still_exchangeText hn) fun _ _ => .edit_bind (still_exchangeText hd) fun _ _ =>
    .bind (.read _) fun as =>
    .edit_bind (still_editPayloads (still_leafPayload hid .fieldSite) as) fun _ _ => .pure _

theorem ComponentRenamed.eq {c c' : Component} (h : ctx.ComponentRenamed final c c') : c' = c := by
  obtain ⟨n, d, as⟩ := c
  obtain ⟨n', d', as'⟩ := c'
  obtain ⟨rfl, rfl⟩ : n' = n ∧ d' = d := h.named.eq hid
  obtain rfl : as' = as := h.attributes.eq fun h => LeafRenamed.eq hid h
  rfl

/-! ## Payloads of a method -/

theorem MethodPayloadRenamed.eq {name : String} (hname : name ≠ "Code") {p p' : Bytes}
    (h : ctx.MethodPayloadRenamed final name p p') : p' = p := by
  cases h with
  | code _ _ _ => exact absurd rfl hname
  | annotationDefault hv => rw [hv.eq fun _ _ => TextRenamed.eq (descriptor_eq hid)]
  | leaf _ _ h => exact h.eq hid

/-- A payload of a method stays as it is, unless it is the body. -/
theorem methodPayload_still (hwf : ctx.oldPool.WellFormed) {name : String} (hname : name ≠ "Code")
    {p p' : Bytes} {pool : ConstantPool} (h : ctx.methodPayload name p ctx.oldPool = .ok p' pool) :
    pool = ctx.oldPool ∧ p' = p := by
  have hstill : Still (ctx.methodPayload name p) fun _ => True := by
    unfold methodPayload
    rw [if_neg hname]
    split
    · exact ((still_readElementValue (still_exchangeDescriptor hid)).run p).bind fun _ _ =>
        .pure trivial
    · exact still_leafPayload hid .methodSite name p
  obtain ⟨rfl, -⟩ := hstill h
  exact ⟨rfl, MethodPayloadRenamed.eq hid hname
    ((yields_methodPayload (.refl _) name p hwf h).2 (.refl _))⟩

/-! ## Lists of inner classes -/

theorem still_readInnerClass {c : InnerClass} (hplain : c.IsPlain ctx.oldPool) (rest : Bytes) :
    Still (ctx.readInnerClass (c.encode ++ rest)) (· = (c, rest)) := by
  obtain ⟨inner, outer, name, flags⟩ := c
  have hsteps : ctx.readInnerClass (InnerClass.encode ⟨inner, outer, name, flags⟩ ++ rest)
      = (if name = 0 then pure ⟨inner, outer, name, flags⟩
        else do
          let binary ← Payload.edit (lookUp (ctx.oldPool.className inner))
          let simple ← Payload.edit (lookUp (ctx.oldPool.utf8 name))
          let new := newSimpleName (ctx.resolver.type binary) simple
          let name ← Payload.edit (ctx.exchangeText name new)
          return ⟨inner, outer, name, flags⟩ : Payload InnerClass) rest := by
    simp only [InnerClass.encode, List.append_assoc, readInnerClass, Payload.read_u2_bind]
  rw [hsteps]
  split
  · exact .pure rfl
  · rename_i hname
    refine Still.bind ((Still.lookUp _).edit rest) ?_
    rintro ⟨binary, _⟩ ⟨hbinary, rfl⟩
    refine Still.bind ((Still.lookUp _).edit _) ?_
    rintro ⟨simple, _⟩ ⟨hsimple, rfl⟩
    have hnew : newSimpleName (ctx.resolver.type binary) simple = simple := by
      rw [hid]
      exact newSimpleName_eq_self (hplain hname binary simple hbinary hsimple)
    refine Still.bind ((hnew ▸ still_exchangeText hsimple).edit _) ?_
    rintro ⟨name', _⟩ ⟨rfl, rfl⟩
    exact .pure rfl

/-- Entries that are called by the ends of binary names are read as they are. -/
theorem still_readInnerClasses {cs : List InnerClass} (hplain : ∀ c ∈ cs, c.IsPlain ctx.oldPool)
    (rest : Bytes) :
    Still (Reader.times cs.length ctx.readInnerClass (cs.flatMap InnerClass.encode ++ rest))
      (· = (cs, rest)) := by
  induction cs with
  | nil => exact .pure rfl
  | cons c cs ih =>
    obtain ⟨hc, hcs⟩ := List.forall_mem_cons.1 hplain
    rw [List.length_cons, Reader.times_succ, List.flatMap_cons, List.append_assoc]
    refine Still.bind (still_readInnerClass hid hc _) ?_
    rintro _ rfl
    refine Still.bind (ih hcs) ?_
    rintro _ rfl
    exact .pure rfl

/-! ## Payloads of a class -/

theorem still_classPayload {name : String} (hname : name ≠ "InnerClasses") (payload : Bytes) :
    Still (ctx.classPayload name payload) fun _ => True := by
  unfold classPayload
  rw [if_neg hname]
  split
  · exact ((still_readEnclosingMethod hid).run payload).bind fun _ _ => .pure trivial
  split
  · have hcomponents : StillStep ctx.readComponents :=
      .bind (.read _) fun count => (still_readComponent hid).times count.toNat
    exact (hcomponents.run payload).bind fun _ _ => .pure trivial
  · exact still_leafPayload hid .classSite name payload

theorem still_innerClasses {cs : List InnerClass} (hcount : cs.length < UInt16.size)
    (hplain : ∀ c ∈ cs, c.IsPlain ctx.oldPool) :
    Still (ctx.classPayload "InnerClasses" (putList InnerClass.encode cs))
      (· = putList InnerClass.encode cs) := by
  have hlength : (UInt16.ofNat cs.length).toNat = cs.length := UInt16.toNat_ofNat_of_lt' hcount
  have hbytes : putList InnerClass.encode cs
      = putU2 (UInt16.ofNat cs.length) ++ (cs.flatMap InnerClass.encode ++ []) := by
    rw [putList, putU2, hlength, List.append_nil]
  have hread : Still (ctx.readInnerClasses (putList InnerClass.encode cs)) (· = (cs, [])) := by
    rw [readInnerClasses, hbytes, Payload.read_u2_bind, hlength]
    exact still_readInnerClasses hid hplain []
  unfold classPayload
  rw [if_pos rfl]
  refine hread.run.bind fun cs' hcs => .pure ?_
  rw [(Prod.mk.inj hcs).1]

theorem ClassPayloadRenamed.eq {name : String} (hname : name ≠ "InnerClasses") {p p' : Bytes}
    (h : ctx.ClassPayloadRenamed final name p p') : p' = p := by
  cases h with
  | innerClasses _ _ => exact absurd rfl hname
  | enclosingMethod h =>
    rcases h with ⟨rfl, rfl⟩ | ⟨-, h⟩
    · rfl
    · rw [h.eq hid]
  | record hp hp' hcs =>
    obtain rfl := eq_of_forall₂ hcs fun c c' _ h => h.eq hid
    rw [(Component.parseAll_eq_ok.1 hp).2, (Component.parseAll_eq_ok.1 hp').2]
  | leaf _ _ _ h => exact h.eq hid

/-- A payload of a class stays as it is, a list of inner classes if its entries are called by the
ends of binary names. -/
theorem classPayload_still (hwf : ctx.oldPool.WellFormed) {name : String} {p p' : Bytes}
    {pool : ConstantPool} (hplain : name = "InnerClasses" → ∀ cs, InnerClass.parseAll p = .ok cs →
      ∀ c ∈ cs, c.IsPlain ctx.oldPool)
    (h : ctx.classPayload name p ctx.oldPool = .ok p' pool) : pool = ctx.oldPool ∧ p' = p := by
  by_cases hname : name = "InnerClasses"
  · subst hname
    -- which entries there are is known only once the list was read, with the pool it left
    obtain ⟨hext, -⟩ := yields_classPayload (.refl ctx.oldPool) _ p hwf h
    obtain ⟨-, hrenamed⟩ := yields_classPayload hext.keepsNames _ p hwf h
    obtain ⟨cs, -, hcs, -⟩ := (hrenamed (.refl pool)).innerClasses_inv rfl
    obtain ⟨hcount, rfl⟩ := InnerClass.parseAll_eq_ok.1 hcs
    exact still_innerClasses hid hcount (hplain rfl cs hcs) h
  · obtain ⟨rfl, -⟩ := still_classPayload hid hname p h
    exact ⟨rfl, ClassPayloadRenamed.eq hid hname
      ((yields_classPayload (.refl _) name p hwf h).2 (.refl _))⟩

end Context

end Jarwright.Renaming
