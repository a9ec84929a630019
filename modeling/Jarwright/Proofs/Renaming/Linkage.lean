import Jarwright.Proofs.Renaming.Structure

/-!
# Linkage between renamed classes

A class declares members, and it or another class mentions them. Four pieces of a class file
mention a member of some class: references to fields and to methods in the pool, the method around a
class, and the components of a record, which are fields of the record itself.

* `ClassFile.declared?` is what a class declares, by the place in its list of members;
* `MentionSite` lists where a class mentions a member, `ClassFile.mentioned?` is which one;
* `declared` and `mentioned` say that a renaming replaces either one by its `renameMemberName`.

A declaration and a mention of the same member therefore stay the same, which is `rename_linkage`.
-/

namespace Jarwright.ClassFile

/-- The attributes with a name. -/
def attributesNamed (pool : ConstantPool) (name : String) (as : List Attribute) : List Attribute :=
  as.filter fun a =>
    match pool.utf8 a.name with
    | .ok n => n == name
    | .error _ => false

/-- The method around a class, if the payload gives one. -/
def enclosingMember (pool : ConstantPool) (payload : Bytes) : Except Fault (Option MemberName) := do
  let p ← Reader.eval (Reader.whole (.badLayout .enclosingMethod) do
    return (← Reader.u2, ← Reader.u2)) payload
  if p.2 = 0 then return none else return some (← pool.memberName p.1 p.2)

end Jarwright.ClassFile

namespace Jarwright.Renaming

open ClassFile ConstantPool

/-! ## Declarations and mentions -/

/-- Where a class mentions a member. -/
inductive MentionSite where
  /-- A reference in a slot of the pool. -/
  | reference (kind : MemberKind) (slot : Nat)
  /-- The method around the class, in one of the attributes that give it. -/
  | enclosingMethod (index : Nat)
  /-- A component of the class as a record, which is a field of the class. -/
  | component (index place : Nat)
  deriving DecidableEq, Repr, Inhabited

/-- The kind of member that is mentioned at a site. -/
def MentionSite.kind : MentionSite → MemberKind
  | reference kind _ => kind
  | enclosingMethod _ => .method
  | component _ _ => .field

/-- The member that a symbol refers to. -/
def symbolMember? : MemberKind → Symbol → Option MemberName
  | .field, .fieldRef m => some m
  | .method, .methodRef m => some m
  | .method, .interfaceMethodRef m => some m
  | _, _ => none

/-- The members of either kind that a class declares. -/
def members (c : ClassFile) : MemberKind → List Member
  | .field => c.fields
  | .method => c.methods

/-- What a class declares in a place of its list of members. -/
def declared? (c : ClassFile) (kind : MemberKind) (j : Nat) : Option MemberName :=
  ((members c kind)[j]?).bind fun m => (c.declaration m.name m.descriptor).toOption

/-- The member that a class mentions at a site. -/
def mentioned? (c : ClassFile) : MentionSite → Option MemberName
  | .reference kind i => (c.pool.symbolAt i).toOption.bind (symbolMember? kind)
  | .enclosingMethod k =>
    ((attributesNamed c.pool "EnclosingMethod" c.attributes)[k]?).bind fun a =>
      (enclosingMember c.pool a.payload).toOption.join
  | .component k i =>
    ((attributesNamed c.pool "Record" c.attributes)[k]?).bind fun a =>
      (Component.parseAll a.payload).toOption.bind fun cs =>
        (cs[i]?).bind fun component =>
          (c.declaration component.name component.descriptor).toOption

/-! ## What a renaming does to them -/

/-- Slot 0 holds no pair of name and descriptor. -/
theorem nameAndType_zero_ne_ok {pool : ConstantPool} (hwf : pool.WellFormed)
    (p : String × String) : pool.nameAndType 0 ≠ .ok p := by
  intro h
  obtain ⟨name, descriptor, hslot, -⟩ := nameAndType_eq_ok.1 h
  obtain ⟨rest, hrest, -⟩ := hwf.layout
  rw [hrest] at hslot
  simp at hslot

@[simp] theorem toOption_eq_some {α : Type} {x : Except Fault α} {a : α} :
    x.toOption = some a ↔ x = .ok a := by
  cases x <;> simp [Except.toOption]

theorem enclosingMember_eq_ok {pool : ConstantPool} {owner m : UInt16} {o : Option MemberName} :
    enclosingMember pool (putU2 owner ++ putU2 m) = .ok o
      ↔ m = 0 ∧ o = none ∨ m ≠ 0 ∧ ∃ t, pool.memberName owner m = .ok t ∧ o = some t := by
  have hread : Reader.eval (Reader.whole (.badLayout .enclosingMethod) do
      return (← Reader.u2, ← Reader.u2)) (putU2 owner ++ putU2 m) = .ok (owner, m) := by
    simp only [Reader.eval_eq_ok, Reader.whole_eq_ok, bind_eq_ok, Reader.u2_eq_ok, pure_eq_ok]
    exact ⟨[], ⟨owner, putU2 m, rfl, m, [], by simp, rfl, rfl⟩, rfl⟩
  simp only [enclosingMember, hread, except_bind_eq_ok, Except.ok.injEq, exists_eq_left']
  by_cases hm : m = 0
  · simp [hm, eq_comm (a := none)]
  · simp [hm, eq_comm (b := o)]

/-- The new form of a reference refers to the new form of its member. -/
theorem renameSymbol_member {r : Resolver} {kind : MemberKind} {s s' : Symbol} {t : MemberName}
    (hs : symbolMember? kind s = some t) (h : renameSymbol r s = .ok s') :
    ∃ t', renameMemberName r kind t = .ok t' ∧ symbolMember? kind s' = some t' := by
  unfold symbolMember? at hs
  split at hs
  case h_4 => cases hs
  all_goals
    obtain rfl := Option.some.inj hs
    simp only [renameSymbol, except_bind_eq_ok, except_pure_eq_ok] at h
    obtain ⟨t', ht', rfl⟩ := h
    exact ⟨t', ht', rfl⟩

namespace Context

variable {ctx : Context} {final : ConstantPool} {c c' : ClassFile}

/-- The attributes with a name that is not stripped are the same before and after, up to their
payloads. -/
theorem AttributesRenamed.named {stripped : List String} {R : String → Bytes → Bytes → Prop}
    {as as' : List Attribute} (h : ctx.AttributesRenamed final stripped R as as') (name : String)
    (hname : name ∉ stripped) :
    List.Forall₂ (fun a a' => R name a.payload a'.payload)
      (attributesNamed ctx.oldPool name as) (attributesNamed final name as') := by
  induction h with
  | nil => exact .nil
  | dropped hold hstripped _ ih =>
    rw [attributesNamed, List.filter_cons_of_neg]
    · exact ih
    · simp only [hold, beq_iff_eq]
      rintro rfl
      exact hname hstripped
  | @kept a a' _ _ n hold _ _ hnew hp _ ih =>
    by_cases hn : n = name
    · subst hn
      rw [attributesNamed, attributesNamed, List.filter_cons_of_pos (by simp [hold]),
        List.filter_cons_of_pos (by simp [hnew])]
      exact .cons hp ih
    · rw [attributesNamed, attributesNamed, List.filter_cons_of_neg (by simp [hold, hn]),
        List.filter_cons_of_neg (by simp [hnew, hn])]
      exact ih

/-- Related lists are related place by place. -/
theorem exists_getElem?_of_forall₂ {α β : Type} {R : α → β → Prop} {xs : List α} {ys : List β}
    (h : List.Forall₂ R xs ys) {i : Nat} {x : α} (hx : xs[i]? = some x) :
    ∃ y, ys[i]? = some y ∧ R x y := by
  induction h generalizing i with
  | nil => simp at hx
  | @cons a b _ _ hab _ ih =>
    cases i with
    | zero =>
      obtain rfl : a = x := by simpa using hx
      exact ⟨b, rfl, hab⟩
    | succ i => exact ih (by simpa using hx)

namespace ClassRenamed

theorem members (h : ctx.ClassRenamed c c') (kind : MemberKind) :
    List.Forall₂ (ctx.MemberRenamed c'.pool kind) (members c kind) (members c' kind) := by
  cases kind with
  | field => exact h.fields
  | method => exact h.methods

variable (h : ctx.ClassRenamed c c') (hold : ctx.oldPool = c.pool)

include h hold

theorem mentioned_reference {kind : MemberKind} {i : Nat} {t : MemberName}
    (ht : mentioned? c (.reference kind i) = some t) :
    ∃ t', renameMemberName ctx.resolver kind t = .ok t'
      ∧ mentioned? c' (.reference kind i) = some t' := by
  obtain ⟨s, hs, hmember⟩ := Option.bind_eq_some_iff.1 ht
  have hs := toOption_eq_some.1 hs
  have hi : i < ctx.oldPool.count := by
    by_contra hlt
    have hslot : c.pool.places[i]? = none := List.getElem?_eq_none (hold ▸ Nat.le_of_not_lt hlt)
    rw [symbolAt, hslot] at hs
    cases hs
  obtain ⟨s₀, s', hs₀, hmap, hs'⟩ := h.pool.symbolAt hi
  obtain rfl : s₀ = s := Except.ok.inj (hs₀.symm.trans (hold ▸ hs))
  obtain ⟨t', ht', hmember'⟩ := renameSymbol_member hmember hmap
  exact ⟨t', ht', Option.bind_eq_some_iff.2 ⟨s', toOption_eq_some.2 hs', hmember'⟩⟩

theorem mentioned_enclosingMethod (hwf : c'.pool.WellFormed) {k : Nat} {t : MemberName}
    (ht : mentioned? c (.enclosingMethod k) = some t) :
    ∃ t', renameMemberName ctx.resolver .method t = .ok t'
      ∧ mentioned? c' (.enclosingMethod k) = some t' := by
  obtain ⟨a, ha, hmember⟩ := Option.bind_eq_some_iff.1 ht
  rw [Option.join_eq_some_iff, toOption_eq_some] at hmember
  have hnamed := h.attributes.named "EnclosingMethod" (by decide)
  rw [hold] at hnamed
  obtain ⟨a', ha', hpayload⟩ := exists_getElem?_of_forall₂ hnamed ha
  obtain ⟨owner, m, m', hp, hp', hrenamed⟩ := hpayload.enclosingMethod_inv rfl
  rw [hp, enclosingMember_eq_ok] at hmember
  obtain ⟨-, hnone⟩ | ⟨hm, t₀, ht₀, heq⟩ := hmember
  · cases hnone
  obtain rfl : t = t₀ := Option.some.inj heq
  obtain ⟨hzero, -⟩ | ⟨-, hat⟩ := hrenamed
  · exact absurd hzero hm
  obtain ⟨old, new, hold', hmap, hnew⟩ := h.pool.memberName hat
  obtain rfl : old = t := Except.ok.inj (hold'.symm.trans (hold ▸ ht₀))
  -- slot 0 is unusable, so no pair of name and descriptor stands there
  have hm' : m' ≠ 0 := by
    rintro rfl
    obtain ⟨_, -, _, _, _, -, -, hpair, -⟩ := hat
    exact nameAndType_zero_ne_ok hwf _ hpair
  refine ⟨new, hmap, Option.bind_eq_some_iff.2 ⟨a', ha', ?_⟩⟩
  rw [Option.join_eq_some_iff, toOption_eq_some, hp', enclosingMember_eq_ok]
  exact .inr ⟨hm', new, hnew, rfl⟩

variable (howner : c.name = .ok ctx.owner)

include howner

theorem declared {kind : MemberKind} {j : Nat} {t : MemberName} (ht : declared? c kind j = some t) :
    ∃ t', renameMemberName ctx.resolver kind t = .ok t' ∧ declared? c' kind j = some t' := by
  obtain ⟨m, hm, hdecl⟩ := Option.bind_eq_some_iff.1 ht
  obtain ⟨m', hm', hrenamed⟩ := exists_getElem?_of_forall₂ (h.members kind) hm
  obtain ⟨old, new, hold', hmap, hnew⟩ := h.declaration hold howner hrenamed.named
  obtain rfl : old = t := Except.ok.inj (hold'.symm.trans (toOption_eq_some.1 hdecl))
  exact ⟨new, hmap, Option.bind_eq_some_iff.2 ⟨m', hm', toOption_eq_some.2 hnew⟩⟩

theorem mentioned_component {k i : Nat} {t : MemberName}
    (ht : mentioned? c (.component k i) = some t) :
    ∃ t', renameMemberName ctx.resolver .field t = .ok t'
      ∧ mentioned? c' (.component k i) = some t' := by
  obtain ⟨a, ha, hrest⟩ := Option.bind_eq_some_iff.1 ht
  obtain ⟨cs, hcs, hrest⟩ := Option.bind_eq_some_iff.1 hrest
  obtain ⟨component, hcomponent, hdecl⟩ := Option.bind_eq_some_iff.1 hrest
  have hnamed := h.attributes.named "Record" (by decide)
  rw [hold] at hnamed
  obtain ⟨a', ha', hpayload⟩ := exists_getElem?_of_forall₂ hnamed ha
  obtain ⟨cs₀, cs', hcs₀, hcs', hall⟩ := hpayload.record_inv rfl
  obtain rfl : cs₀ = cs := Except.ok.inj (hcs₀.symm.trans (toOption_eq_some.1 hcs))
  obtain ⟨component', hcomponent', hrenamed⟩ := exists_getElem?_of_forall₂ hall hcomponent
  obtain ⟨old, new, hold', hmap, hnew⟩ := h.declaration hold howner hrenamed.named
  obtain rfl : old = t := Except.ok.inj (hold'.symm.trans (toOption_eq_some.1 hdecl))
  refine ⟨new, hmap, Option.bind_eq_some_iff.2 ⟨a', ha', ?_⟩⟩
  refine Option.bind_eq_some_iff.2 ⟨cs', toOption_eq_some.2 hcs', ?_⟩
  exact Option.bind_eq_some_iff.2 ⟨component', hcomponent', toOption_eq_some.2 hnew⟩

theorem mentioned (hwf : c'.pool.WellFormed) {site : MentionSite} {t : MemberName}
    (ht : mentioned? c site = some t) :
    ∃ t', renameMemberName ctx.resolver site.kind t = .ok t' ∧ mentioned? c' site = some t' := by
  cases site with
  | reference kind i => exact h.mentioned_reference hold ht
  | enclosingMethod k => exact h.mentioned_enclosingMethod hold hwf ht
  | component k i => exact h.mentioned_component hold howner ht

end ClassRenamed

end Context

/-- **A renaming preserves linkage.**  Take two classes that one resolver renames, which may be the
same. Where the first declares a member and the second mentions it, in a reference, as the method
around it or as a component of a record, the second mentions afterwards, at the same site, exactly
what the first declares afterwards in the same place. -/
theorem rename_linkage {r : Resolver} {bytesA bytesB : Bytes} {outA outB : RenamedClass}
    (hA : rename r bytesA = .ok outA) (hB : rename r bytesB = .ok outB) :
    ∃ a a' b b', ClassFile.parse bytesA = .ok a ∧ ClassFile.parse outA.bytes = .ok a'
      ∧ ClassFile.parse bytesB = .ok b ∧ ClassFile.parse outB.bytes = .ok b'
      ∧ ∀ kind j t, declared? a kind j = some t →
        ∃ t', declared? a' kind j = some t'
          ∧ ∀ site, site.kind = kind → mentioned? b site = some t →
            mentioned? b' site = some t' := by
  obtain ⟨a, a', hparseA, hownerA, hparseA', -, hrenamedA⟩ := rename_spec hA
  obtain ⟨b, b', hparseB, hownerB, hparseB', -, hrenamedB⟩ := rename_spec hB
  refine ⟨a, a', b, b', hparseA, hparseA', hparseB, hparseB', fun kind j t ht => ?_⟩
  obtain ⟨t', hmap, ht'⟩ := hrenamedA.declared rfl hownerA ht
  refine ⟨t', ht', fun site hkind hmention => ?_⟩
  obtain ⟨s', hmap', hs'⟩ :=
    hrenamedB.mentioned rfl hownerB (of_parse hparseB').1.pool hmention
  obtain rfl : t' = s' := Except.ok.inj (hmap.symm.trans (hkind ▸ hmap'))
  exact hs'

theorem rename_linkage_sampleClass :
    rename sampleResolver sampleClass = .ok renamedSample
      ∧ ∃ a a' b b', ClassFile.parse sampleClass = .ok a
        ∧ ClassFile.parse renamedSample.bytes = .ok a'
        ∧ ClassFile.parse sampleClass = .ok b ∧ ClassFile.parse renamedSample.bytes = .ok b'
        ∧ ∀ kind j t, declared? a kind j = some t →
          ∃ t', declared? a' kind j = some t'
            ∧ ∀ site, site.kind = kind → mentioned? b site = some t →
              mentioned? b' site = some t' :=
  ⟨rename_sampleClass, rename_linkage rename_sampleClass rename_sampleClass⟩

end Jarwright.Renaming
