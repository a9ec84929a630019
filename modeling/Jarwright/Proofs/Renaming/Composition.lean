import Jarwright.Proofs.ClassFile.Descriptor
import Jarwright.Proofs.ClassFile.Signature
import Jarwright.Proofs.Mapping.Compact
import Jarwright.Proofs.Renaming.Signatures

/-!
# One pass for two

A composed resolver asks the second resolver about the owner and the descriptor that it works out
itself from the answers of the first. Two passes work on bytes: the second one reads owner and
descriptor back from the pool that the first one wrote, and this pool has other slots behind the old
ones.

They agree if the second resolver renames members by their names alone and no types. For then owner
and descriptor do not matter to it, and a descriptor or a signature that it accepts is the one that
it answers.

* `Fuses R₁ R₂ R S`: doing `R₁` and then `R₂` leads to what `R` leads to, up to `S`;
* `Agreement n a b`: two classes mean the same in their first `n` slots, in what they declare and in
  their signatures;
* `rename_compose_agreement` is the agreement for such a second resolver, and `rename_fused` the
  case of a table by owner followed by tables of names.
-/

namespace Jarwright.Renaming

open ClassFile ConstantPool

/-! ## Relations that fuse -/

/-- Where `R₁` and then `R₂` lead from some start, `R` leads up to `S`. -/
def Fuses {α : Type} (R₁ R₂ R S : α → α → Prop) : Prop :=
  ∀ ⦃x x₁ x₂ y⦄, R₁ x x₁ → R₂ x₁ x₂ → R x y → S y x₂

namespace Fuses

variable {α : Type} {R₁ R₂ R S : α → α → Prop}

theorem both (h : Fuses R₁ R₂ R S) : Fuses (Both R₁) (Both R₂) (Both R) (Both S) := by
  rintro _ _ _ _ ⟨a, a₁, rfl, rfl, h₁⟩ ⟨b₁, a₂, hb₁, rfl, h₂⟩ ⟨a', b, ha', rfl, hR⟩
  obtain rfl : a₁ = b₁ := Except.ok.inj hb₁
  obtain rfl : a = a' := Except.ok.inj ha'
  exact ⟨b, a₂, rfl, rfl, h h₁ h₂ hR⟩

theorem forall₂ (h : Fuses R₁ R₂ R S) :
    Fuses (List.Forall₂ R₁) (List.Forall₂ R₂) (List.Forall₂ R) (List.Forall₂ S) := by
  intro xs xs₁ xs₂ ys h₁ h₂ hR
  induction h₁ generalizing xs₂ ys with
  | nil =>
    cases h₂
    cases hR
    exact .nil
  | cons hx _ ih =>
    cases h₂ with
    | cons hx₁ h₂ =>
      cases hR with
      | cons hy hR => exact .cons (h hx hx₁ hy) (ih h₂ hR)

theorem signatures {R₁ R₂ R S : Signature.Site → String → String → Prop}
    (h : ∀ site, Fuses (R₁ site) (R₂ site) (R site) (S site)) :
    Fuses (SignaturesRelated R₁) (SignaturesRelated R₂) (SignaturesRelated R)
      (SignaturesRelated S) := by
  have htexts (site : Signature.Site) : Fuses (TextsRelated (R₁ site)) (TextsRelated (R₂ site))
      (TextsRelated (R site)) (TextsRelated (S site)) := (h site).both.forall₂
  intro s s₁ s₂ s' h₁ h₂ hR
  exact {
    ofClass := htexts _ h₁.ofClass h₂.ofClass hR.ofClass
    ofFields := (htexts _).forall₂ h₁.ofFields h₂.ofFields hR.ofFields
    ofMethods := (htexts _).forall₂ h₁.ofMethods h₂.ofMethods hR.ofMethods
    ofBodies := (htexts _).both.forall₂.forall₂ h₁.ofBodies h₂.ofBodies hR.ofBodies
    ofComponents :=
      (htexts _).forall₂.both.forall₂ h₁.ofComponents h₂.ofComponents hR.ofComponents }

end Fuses

/-! ## A second resolver that looks at names alone -/

/-- A resolver that renames no types, and members by their names alone. -/
structure NamesOnly (r : Resolver) : Prop where
  type : r.type = id
  member : ∀ (kind : MemberKind) (name owner descriptor owner' descriptor' : String),
    newMemberName r kind owner name descriptor = newMemberName r kind owner' name descriptor'

theorem namesOnly_byName (fields methods : Mapping.Csv) :
    NamesOnly (Resolver.byName fields methods) where
  type := rfl
  member kind _ _ _ _ _ := by cases kind <;> rfl

/-- The composed resolver asks the second about the name that the first one gives. -/
theorem newMemberName_compose (first second : Resolver) (kind : MemberKind)
    (owner name descriptor : String) :
    newMemberName (first.compose second) kind owner name descriptor
      = newMemberName second kind (first.type owner)
          (newMemberName first kind owner name descriptor) (first.forward descriptor) := by
  cases kind <;> rfl

/-- What fuses for the content of a symbol fuses for the symbol. -/
theorem Fuses.content {β : Type} {f : Resolver → β → Except Fault β} {first second : Resolver}
    (h : Fuses (fun x x' => f first x = .ok x') (fun x x' => f second x = .ok x')
      (fun x x' => f (first.compose second) x = .ok x') Eq) (mk : β → Symbol)
    (hmk : ∀ r x, renameSymbol r (mk x) = do return mk (← f r x)) {x : β} {s₁ s₂ s' : Symbol}
    (h₁ : renameSymbol first (mk x) = .ok s₁) (h₂ : renameSymbol second s₁ = .ok s₂)
    (hR : renameSymbol (first.compose second) (mk x) = .ok s') : s' = s₂ := by
  simp only [hmk, except_bind_eq_ok, except_pure_eq_ok] at h₁ hR
  obtain ⟨x₁, hx₁, rfl⟩ := h₁
  obtain ⟨x', hx', rfl⟩ := hR
  simp only [hmk, except_bind_eq_ok, except_pure_eq_ok] at h₂
  obtain ⟨x₂, hx₂, rfl⟩ := h₂
  rw [h hx₁ hx₂ hx']

namespace NamesOnly

variable {first second : Resolver} (hsecond : NamesOnly second)

include hsecond

theorem type_compose : (first.compose second).type = first.type := by
  funext name
  exact congrFun hsecond.type (first.type name)

/-- Whatever kind of text is renamed: if renaming nothing returns a text that is accepted, the two
passes fuse. -/
theorem fuses_text {f : (String → String) → String → Except Fault String}
    (hid : ∀ {s s' : String}, f id s = .ok s' → s' = s) :
    Fuses (fun s s' => f first.type s = .ok s') (fun s s' => f second.type s = .ok s')
      (fun s s' => f (first.compose second).type s = .ok s') Eq := by
  intro s s₁ s₂ s' h₁ h₂ h
  rw [hsecond.type] at h₂
  rw [hsecond.type_compose, h₁] at h
  rw [hid h₂]
  exact (Except.ok.inj h).symm

theorem fuses_className :
    Fuses (fun n n' => ClassName.map first.type n = .ok n')
      (fun n n' => ClassName.map second.type n = .ok n')
      (fun n n' => ClassName.map (first.compose second).type n = .ok n') Eq :=
  hsecond.fuses_text ClassName.eq_of_map_id

theorem fuses_descriptor :
    Fuses (fun d d' => first.descriptor d = .ok d') (fun d d' => second.descriptor d = .ok d')
      (fun d d' => (first.compose second).descriptor d = .ok d') Eq :=
  hsecond.fuses_text Descriptor.eq_of_map_id

theorem fuses_signature (site : Signature.Site) :
    Fuses (SignatureMapped first site) (SignatureMapped second site)
      (SignatureMapped (first.compose second) site) Eq :=
  hsecond.fuses_text Signature.eq_of_map_id

theorem fuses_memberName (kind : MemberKind) :
    Fuses (MemberNameMapped first kind) (MemberNameMapped second kind)
      (MemberNameMapped (first.compose second) kind) Eq := by
  intro m m₁ m₂ m' h₁ h₂ h
  simp only [MemberNameMapped, renameMemberName, except_bind_eq_ok, except_pure_eq_ok] at h₁ h₂ h
  obtain ⟨o₁, ho₁, d₁, hd₁, rfl⟩ := h₁
  obtain ⟨o₂, ho₂, d₂, hd₂, rfl⟩ := h₂
  obtain ⟨o, ho, d, hd, rfl⟩ := h
  have howner : o = o₂ := hsecond.fuses_className ho₁ ho₂ ho
  have hdescriptor : d = d₂ := hsecond.fuses_descriptor hd₁ hd₂ hd
  -- the second resolver is asked about the same name, and nothing else matters to it
  have hname := newMemberName_compose first second kind m.owner m.name m.descriptor
  rw [hsecond.member kind _ _ _ o₁ d₁] at hname
  rw [howner, hdescriptor, hname]

theorem fuses_symbol :
    Fuses (fun s s' => renameSymbol first s = .ok s') (fun s s' => renameSymbol second s = .ok s')
      (fun s s' => renameSymbol (first.compose second) s = .ok s') Eq := by
  intro s s₁ s₂ s' h₁ h₂ h
  cases s with
  | classRef n =>
    exact Fuses.content (f := fun r => ClassName.map r.type) hsecond.fuses_className .classRef
      (fun _ _ => rfl) h₁ h₂ h
  | fieldRef m =>
    exact Fuses.content (f := fun r => renameMemberName r .field) (hsecond.fuses_memberName .field)
      .fieldRef (fun _ _ => rfl) h₁ h₂ h
  | methodRef m =>
    exact Fuses.content (f := fun r => renameMemberName r .method)
      (hsecond.fuses_memberName .method) .methodRef (fun _ _ => rfl) h₁ h₂ h
  | interfaceMethodRef m =>
    exact Fuses.content (f := fun r => renameMemberName r .method)
      (hsecond.fuses_memberName .method) .interfaceMethodRef (fun _ _ => rfl) h₁ h₂ h
  | methodType d =>
    exact Fuses.content hsecond.fuses_descriptor .methodType (fun _ _ => rfl) h₁ h₂ h
  | dynamic b n d =>
    exact Fuses.content hsecond.fuses_descriptor (.dynamic b n) (fun _ _ => rfl) h₁ h₂ h
  | invokeDynamic b n d =>
    exact Fuses.content hsecond.fuses_descriptor (.invokeDynamic b n) (fun _ _ => rfl) h₁ h₂ h
  | raw c =>
    obtain rfl := Except.ok.inj h₁
    exact Except.ok.inj (h.symm.trans h₂)

end NamesOnly

/-! ## Agreement -/

/-- Two classes mean the same: in their first `n` slots, in the members they declare, and in the
texts of their signatures. -/
structure Agreement (n : Nat) (a b : ClassFile) : Prop where
  symbols : ∀ i < n, Both Eq (a.pool.symbolAt i) (b.pool.symbolAt i)
  declarations : ∀ kind, List.Forall₂ (Both Eq) (declarations a kind) (declarations b kind)
  signatures : SignaturesRelated (fun _ => Eq) (signatures a) (signatures b)

/-- One pass with a composed resolver agrees with two passes, if the second resolver renames members
by their names alone and no types. -/
theorem rename_compose_agreement {first second : Resolver} (hsecond : NamesOnly second)
    {bytes : Bytes} {fused mid last : RenamedClass}
    (hfused : rename (first.compose second) bytes = .ok fused)
    (hmid : rename first bytes = .ok mid) (hlast : rename second mid.bytes = .ok last) :
    ∃ c a b, ClassFile.parse bytes = .ok c ∧ ClassFile.parse fused.bytes = .ok a
      ∧ ClassFile.parse last.bytes = .ok b ∧ Agreement c.pool.count a b := by
  obtain ⟨c, a, hc, howner, ha, -, hR⟩ := rename_spec hfused
  obtain ⟨c', m, hc', howner₁, hm, -, h₁⟩ := rename_spec hmid
  obtain ⟨m', b, hm', howner₂, hb, -, h₂⟩ := rename_spec hlast
  obtain rfl : c = c' := Except.ok.inj (hc.symm.trans hc')
  obtain rfl : m = m' := Except.ok.inj (hm.symm.trans hm')
  refine ⟨c, a, b, hc, ha, hb, ⟨fun i hi => ?_, fun kind => ?_, ?_⟩⟩
  · have hle : c.pool.count ≤ m.pool.count := h₁.pool.symbolsRenamed.count_le
    obtain ⟨s, s', hs, hmap, hs'⟩ := hR.pool.symbolAt hi
    obtain ⟨t, s₁, ht, hmap₁, hs₁⟩ := h₁.pool.symbolAt hi
    obtain ⟨t₁, s₂, ht₁, hmap₂, hs₂⟩ := h₂.pool.symbolAt (Nat.lt_of_lt_of_le hi hle)
    obtain rfl : s = t := Except.ok.inj (hs.symm.trans ht)
    obtain rfl : s₁ = t₁ := Except.ok.inj (hs₁.symm.trans ht₁)
    exact ⟨s', s₂, hs', hs₂, hsecond.fuses_symbol hmap₁ hmap₂ hmap⟩
  · exact (hsecond.fuses_memberName kind).both.forall₂ (h₁.declarations rfl howner₁ kind)
      (h₂.declarations rfl howner₂ kind) (hR.declarations rfl howner kind)
  · exact Fuses.signatures hsecond.fuses_signature (h₁.signatures rfl) (h₂.signatures rfl)
      (hR.signatures rfl)

/-! ## A small case -/

/-- Calls the class `a`, its field `f` and its method `m` by other names. -/
def sampleTable : Mapping.Compact :=
  .ofEntries [.type "a" "b", .field "a" "f" "g", .method "a" "m" "()V" "n"]

/-- Calls every field `g` by another name. -/
def sampleFields : Mapping.Csv := ⟨(∅ : Std.HashMap String String).insert "g" "gain"⟩

/-- Calls every method `n` by another name. -/
def sampleMethods : Mapping.Csv := ⟨(∅ : Std.HashMap String String).insert "n" "next"⟩

/-- What the table by owner does, without the table. -/
def sampleByOwner : Resolver where
  type name := if name = "a" then "b" else name
  field owner name _ := if owner = "a" ∧ name = "f" then "g" else name
  method owner name descriptor :=
    if Resolver.isSpecial name then name
    else if owner = "a" ∧ name = "m" ∧ descriptor = "()V" then "n" else name

/-- What the tables of names do, without the tables. -/
def sampleByName : Resolver where
  type name := name
  field _ name _ := if name = "g" then "gain" else name
  method _ name _ :=
    if Resolver.isSpecial name then name else if name = "n" then "next" else name

/-- Without types above it, a type is asked alone. -/
theorem find?_empty {α : Type} (start : String) (visit : String → Option α) :
    Hierarchy.empty.find? start visit = visit start := by
  have hwalk : Hierarchy.empty.preorder start = [start] := by
    simp [Hierarchy.preorder, Hierarchy.walk, Hierarchy.supertypes, Hierarchy.empty]
  rw [Hierarchy.find?, hwalk, List.findSome?_cons]
  cases visit start <;> rfl

/-- A table with one entry has this entry for its key and no other. -/
theorem getElem?_single {α : Type} [BEq α] [Hashable α] [LawfulBEq α] [DecidableEq α] (k k' : α)
    (new : String) :
    ((∅ : Std.HashMap α String).insert k new)[k']? = if k' = k then some new else none := by
  rw [Std.HashMap.getElem?_insert]
  by_cases h : k' = k
  · simp [h]
  · simp [h, Ne.symm h]

theorem getD_single {α : Type} [BEq α] [Hashable α] [LawfulBEq α] [DecidableEq α] (k k' : α)
    (new old : String) :
    ((∅ : Std.HashMap α String).insert k new)[k']?.getD old = if k' = k then new else old := by
  rw [getElem?_single, apply_ite (Option.getD · old)]
  rfl

/-- The table with one method has no other one. -/
theorem methodName?_sampleTable (owner name descriptor : String) :
    sampleTable.methodName? owner name descriptor
      = if owner = "a" ∧ name = "m" ∧ descriptor = "()V" then some "n" else none := by
  refine (Mapping.Compact.methodName?_insert _ (by decide) (by decide) ..).trans ?_
  simp [eq_comm (b := owner), eq_comm (b := name), eq_comm (b := descriptor)]

theorem byOwner_sampleTable : Resolver.byOwner sampleTable .empty = sampleByOwner := by
  unfold Resolver.byOwner sampleByOwner
  congr 1
  · funext name
    exact getD_single ..
  · funext owner name _
    rw [find?_empty]
    exact (getD_single ..).trans (by simp only [Prod.mk.injEq])
  · funext owner name descriptor
    rw [find?_empty]
    rw [methodName?_sampleTable, apply_ite (Option.getD · name)]
    rfl

theorem byName_sampleFields : Resolver.byName sampleFields sampleMethods = sampleByName := by
  unfold Resolver.byName sampleByName
  congr 1
  · funext _ name _
    exact getD_single ..
  · funext _ name _
    exact congrArg _ (getD_single ..)

/-- The small class as two passes leave it. -/
def renamedTwice : RenamedClass := (rename sampleByName renamedSample.bytes).toOption.getD default

/-- The small class as one pass leaves it. -/
def renamedOnce : RenamedClass :=
  (rename (sampleByOwner.compose sampleByName) sampleClass).toOption.getD default

/-! ## The tables of a build -/

/-- **One pass does what two passes do.**  Rename a class with a table by owner and then with tables
of names, and rename it once with the two resolvers composed. The results agree in the meaning of
every old slot, in what is declared, and in every signature. -/
theorem rename_fused {table : Mapping.Compact} {hierarchy : Hierarchy}
    {fields methods : Mapping.Csv} {bytes : Bytes} {fused mid last : RenamedClass}
    (hfused : rename ((Resolver.byOwner table hierarchy).compose (Resolver.byName fields methods))
      bytes = .ok fused)
    (hmid : rename (Resolver.byOwner table hierarchy) bytes = .ok mid)
    (hlast : rename (Resolver.byName fields methods) mid.bytes = .ok last) :
    ∃ c a b, ClassFile.parse bytes = .ok c ∧ ClassFile.parse fused.bytes = .ok a
      ∧ ClassFile.parse last.bytes = .ok b ∧ Agreement c.pool.count a b :=
  rename_compose_agreement (namesOnly_byName fields methods) hfused hmid hlast

set_option maxRecDepth 10000 in
theorem rename_fused_sampleClass :
    rename ((Resolver.byOwner sampleTable .empty).compose
        (Resolver.byName sampleFields sampleMethods)) sampleClass = .ok renamedOnce
      ∧ rename (Resolver.byOwner sampleTable .empty) sampleClass = .ok renamedSample
      ∧ rename (Resolver.byName sampleFields sampleMethods) renamedSample.bytes = .ok renamedTwice
      ∧ ∃ c a b, ClassFile.parse sampleClass = .ok c ∧ ClassFile.parse renamedOnce.bytes = .ok a
        ∧ ClassFile.parse renamedTwice.bytes = .ok b ∧ Agreement c.pool.count a b := by
  have hfused : rename ((Resolver.byOwner sampleTable .empty).compose
      (Resolver.byName sampleFields sampleMethods)) sampleClass = .ok renamedOnce := by
    rw [byOwner_sampleTable, byName_sampleFields]
    decide +kernel
  have hmid : rename (Resolver.byOwner sampleTable .empty) sampleClass = .ok renamedSample := by
    rw [byOwner_sampleTable]
    decide +kernel
  have hlast : rename (Resolver.byName sampleFields sampleMethods) renamedSample.bytes
      = .ok renamedTwice := by
    rw [byName_sampleFields]
    decide +kernel
  exact ⟨hfused, hmid, hlast, rename_fused hfused hmid hlast⟩

end Jarwright.Renaming
