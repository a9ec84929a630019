import Jarwright.Proofs.Renaming.Stillness

/-!
# A renaming that renames nothing only strips

`strip` takes the debug attributes out of a class and changes nothing else. A renaming that renames
nothing answers exactly that: it reads a class and writes the stripped one, with the same pool.

* `Settles pool f x y`: from `x` an edit comes to `y`, leaves the pool as it is, and stays at `y`
  when it is run again. Lists of attributes settle at what is left of them without the debug data
  (`settles_editPayloads`), bodies at `stripCode`, members and classes accordingly.
* What is written is read back as the very same class, with the same table of constants in its pool
  (`ClassFile.parse_encode_of_parse`), so a second renaming starts from where the first one settled.

`rename_strips` puts both together.
-/

namespace Jarwright.Renaming

open ClassFile ConstantPool
open Reader (Counted)

/-! ## Classes without debug attributes -/

/-- A body without its debug attributes. -/
def stripCode (pool : ConstantPool) (payload : Bytes) : Bytes :=
  match Code.parse payload with
  | .ok b => Code.encode { b with attributes := b.attributes.filter (Place.code.keeps pool) }
  | .error _ => payload

/-- An attribute of a declared member: the body of a method is stripped, and every other one
stays. -/
def stripAttribute (pool : ConstantPool) (kind : MemberKind) (a : Attribute) : Attribute :=
  if kind = .method ∧ pool.utf8 a.name = .ok "Code" then
    { a with payload := stripCode pool a.payload }
  else a

/-- A declared member without debug attributes in its body. -/
def stripMember (pool : ConstantPool) (kind : MemberKind) (m : Member) : Member :=
  { m with attributes := m.attributes.map (stripAttribute pool kind) }

/-- A class without debug attributes, of its own and in the bodies of its methods. -/
def strip (c : ClassFile) : ClassFile :=
  { c with
    methods := c.methods.map (stripMember c.pool .method)
    attributes := c.attributes.filter (Place.classFile.keeps c.pool) }

/-! ## Edits that settle -/

/-- If an edit of `x` succeeds, it leaves the pool as it is and answers `y`, and an edit of `y`
answers the same. -/
def Settles {α : Type} (pool : ConstantPool) (f : α → Edit α) (x y : α) : Prop :=
  ∀ ⦃z pool'⦄, f x pool = .ok z pool' → pool' = pool ∧ z = y ∧ f y pool = .ok y pool

/-- An edit that answers what it is run on settles there. -/
theorem Settles.of_same {α : Type} {pool : ConstantPool} {f : α → Edit α} {x : α}
    (h : ∀ ⦃z pool'⦄, f x pool = .ok z pool' → pool' = pool ∧ z = x) : Settles pool f x x := by
  intro z pool' hf
  obtain ⟨rfl, rfl⟩ := h hf
  exact ⟨rfl, rfl, hf⟩

@[simp] theorem lookUp_eq_ok {α : Type} {r : Except Fault α} {x : α} {pool pool' : ConstantPool} :
    lookUp r pool = .ok x pool' ↔ r = .ok x ∧ pool = pool' := by
  unfold lookUp
  cases r <;> simp

namespace Context

variable {ctx : Context}

/-- The first attribute of a list is left out, or its payload is edited before the others. -/
theorem editPayloads_cons_eq_ok {stripped : List String} {payload : String → Bytes → Edit Bytes}
    {a : Attribute} {as z : List Attribute} {pool pool' : ConstantPool} :
    editPayloads ctx stripped payload (a :: as) pool = .ok z pool'
      ↔ ∃ name, ctx.oldPool.utf8 a.name = .ok name
        ∧ (name ∈ stripped ∧ editPayloads ctx stripped payload as pool = .ok z pool'
          ∨ name ∉ stripped ∧ ∃ new mid more, payload name a.payload pool = .ok new mid
            ∧ editPayloads ctx stripped payload as mid = .ok more pool'
            ∧ z = ⟨a.name, new⟩ :: more) := by
  rw [editPayloads, bind_eq_ok]
  constructor
  · rintro ⟨name, mid, hlook, hedit⟩
    obtain ⟨hname, rfl⟩ := lookUp_eq_ok.1 hlook
    refine ⟨name, hname, ?_⟩
    split at hedit
    · rename_i hstripped
      exact .inl ⟨by simpa using hstripped, hedit⟩
    · rename_i hkept
      simp only [bind_eq_ok, pure_eq_ok] at hedit
      obtain ⟨new, mid, hnew, more, _, hmore, rfl, rfl⟩ := hedit
      exact .inr ⟨by simpa using hkept, new, mid, more, hnew, hmore, rfl⟩
  · rintro ⟨name, hname, hcases⟩
    refine ⟨name, pool, lookUp_eq_ok.2 ⟨hname, rfl⟩, ?_⟩
    obtain ⟨hstripped, hedit⟩ | ⟨hkept, new, mid, more, hnew, hmore, rfl⟩ := hcases
    · rwa [if_pos (by simpa using hstripped)]
    · rw [if_neg (by simpa using hkept)]
      simp only [bind_eq_ok, pure_eq_ok]
      exact ⟨new, mid, hnew, more, pool', hmore, rfl, rfl⟩

/-- A list of attributes settles at what stays of it, if its payloads settle. -/
theorem settles_editPayloads (place : Place) {payload : String → Bytes → Edit Bytes}
    (g : Attribute → Attribute) (hg : ∀ a, (g a).name = a.name) {as : List Attribute}
    (h : ∀ a ∈ as, ∀ name, ctx.oldPool.utf8 a.name = .ok name →
      Settles ctx.oldPool (payload name) a.payload (g a).payload) :
    Settles ctx.oldPool (editPayloads ctx place.stripped payload) as
      ((as.filter (place.keeps ctx.oldPool)).map g) := by
  induction as with
  | nil =>
    intro z pool' hedit
    obtain ⟨rfl, rfl⟩ := pure_eq_ok.1 hedit
    exact ⟨rfl, rfl, rfl⟩
  | cons a as ih =>
    obtain ⟨ha, has⟩ := List.forall_mem_cons.1 h
    intro z pool' hedit
    obtain ⟨name, hname, hcases⟩ := editPayloads_cons_eq_ok.1 hedit
    obtain ⟨hstripped, hmore⟩ | ⟨hkept, new, mid, more, hnew, hmore, rfl⟩ := hcases
    · rw [List.filter_cons_of_neg (by simp [Place.keeps, hname, hstripped])]
      exact ih has hmore
    · rw [List.filter_cons_of_pos (by simp [Place.keeps, hname, hkept]), List.map_cons]
      obtain ⟨rfl, rfl, hagain⟩ := ha name hname hnew
      obtain ⟨rfl, rfl, hrest⟩ := ih has hmore
      have hga : g a = ⟨a.name, (g a).payload⟩ := by rw [← hg a]
      refine ⟨rfl, by rw [← hga], ?_⟩
      exact editPayloads_cons_eq_ok.2 ⟨name, (hg a).symm ▸ hname,
        .inr ⟨hkept, _, _, _, hagain, hrest, by rw [hg, ← hga]⟩⟩

variable (hid : ctx.resolver = Resolver.identity) (hwf : ctx.oldPool.WellFormed)

include hid hwf

/-! ## Members -/

theorem settles_leafPayload (site : Signature.Site) (name : String) (payload : Bytes) :
    Settles ctx.oldPool (ctx.leafPayload site name) payload payload :=
  .of_same fun _ _ => leafPayload_still hid hwf

theorem settles_codePayload (payload : Bytes) :
    Settles ctx.oldPool ctx.codePayload payload (stripCode ctx.oldPool payload) := by
  intro z pool' hedit
  simp only [codePayload, bind_eq_ok, lookUp_eq_ok, pure_eq_ok] at hedit
  obtain ⟨b, _, ⟨hparse, rfl⟩, as, _, has, rfl, rfl⟩ := hedit
  have hsettles := settles_editPayloads .code id (fun _ => rfl)
    fun a (_ : a ∈ b.attributes) name _ => settles_leafPayload hid hwf .fieldSite name a.payload
  rw [List.map_id] at hsettles
  obtain ⟨rfl, rfl, hagain⟩ := hsettles has
  have hstrip : stripCode ctx.oldPool payload = Code.encode
      { b with attributes := b.attributes.filter (Place.code.keeps ctx.oldPool) } := by
    rw [stripCode, hparse]
  -- what is left of the body is read again
  have hfits := (Code.parse_eq_ok.1 hparse).1
  have hcounted : Counted Attribute.Fits (b.attributes.filter (Place.code.keeps ctx.oldPool)) :=
    ⟨Nat.lt_of_le_of_lt (List.length_filter_le ..) hfits.attributes.1,
      fun a ha => hfits.attributes.2 a (List.mem_of_mem_filter ha)⟩
  have hparse' : Code.parse (stripCode ctx.oldPool payload) = .ok
      { b with attributes := b.attributes.filter (Place.code.keeps ctx.oldPool) } :=
    Code.parse_eq_ok.2 ⟨⟨hfits.bytecode, hfits.handlers, hcounted⟩, hstrip⟩
  refine ⟨rfl, hstrip.symm, ?_⟩
  simp only [codePayload, bind_eq_ok, lookUp_eq_ok, pure_eq_ok]
  exact ⟨_, _, ⟨hparse', rfl⟩, _, _, hagain, hstrip.symm, rfl⟩

/-- The payload of an attribute of a declared member settles at its stripped form. -/
theorem settles_memberPayload (kind : MemberKind) {a : Attribute} {name : String}
    (hname : ctx.oldPool.utf8 a.name = .ok name) :
    Settles ctx.oldPool (ctx.memberPayload kind name) a.payload
      (stripAttribute ctx.oldPool kind a).payload := by
  cases kind with
  | field => exact settles_leafPayload hid hwf .fieldSite name a.payload
  | method =>
    by_cases hcode : name = "Code"
    · subst hcode
      rw [stripAttribute, if_pos ⟨rfl, hname⟩]
      exact settles_codePayload hid hwf a.payload
    · rw [stripAttribute, if_neg (by simp [hname, hcode])]
      exact .of_same fun _ _ => methodPayload_still hid hwf hcode

/-- Attributes of a declared member settle at their stripped forms, and none of them is left
out. -/
theorem settles_memberAttributes (kind : MemberKind) (as : List Attribute) :
    Settles ctx.oldPool (editPayloads ctx [] (ctx.memberPayload kind)) as
      (as.map (stripAttribute ctx.oldPool kind)) := by
  have hname (a : Attribute) : (stripAttribute ctx.oldPool kind a).name = a.name := by
    unfold stripAttribute
    split <;> rfl
  have hstripped : (Place.ofMember kind).stripped = [] := by cases kind <;> rfl
  have hall : as.filter ((Place.ofMember kind).keeps ctx.oldPool) = as := by
    refine List.filter_eq_self.2 fun a _ => ?_
    rw [Place.keeps, hstripped]
    split <;> rfl
  have h := settles_editPayloads (.ofMember kind) _ hname fun a (_ : a ∈ as) name hold =>
    settles_memberPayload hid hwf kind hold
  rwa [hall, hstripped] at h

/-- A declared member settles at its stripped form. -/
theorem settles_renameMember (kind : MemberKind) (m : Member) :
    Settles ctx.oldPool (ctx.renameMember kind) m (stripMember ctx.oldPool kind m) := by
  intro z pool' hedit
  simp only [renameMember, bind_eq_ok, lookUp_eq_ok, pure_eq_ok, memberName_eq hid] at hedit ⊢
  obtain ⟨name, _, ⟨hname, rfl⟩, descriptor, _, ⟨hdescriptor, rfl⟩, newDescriptor, _, ⟨hnew, rfl⟩,
    n, _, hn, d, _, hd, as, _, has, rfl, rfl⟩ := hedit
  obtain rfl := descriptor_eq hid hnew
  obtain ⟨rfl, rfl⟩ := still_exchangeText hname hn
  obtain ⟨rfl, rfl⟩ := still_exchangeText hdescriptor hd
  obtain ⟨rfl, rfl, hagain⟩ := settles_memberAttributes hid hwf kind m.attributes has
  exact ⟨rfl, rfl, name, _, ⟨hname, rfl⟩, newDescriptor, _, ⟨hdescriptor, rfl⟩, newDescriptor, _,
    ⟨hnew, rfl⟩, m.name, _, hn, m.descriptor, _, hd, _, _, hagain, rfl, rfl⟩

theorem settles_renameMembers (kind : MemberKind) (ms : List Member) :
    Settles ctx.oldPool (ctx.renameMembers kind) ms (ms.map (stripMember ctx.oldPool kind)) := by
  induction ms with
  | nil =>
    intro z pool' hedit
    obtain ⟨rfl, rfl⟩ := pure_eq_ok.1 hedit
    exact ⟨rfl, rfl, rfl⟩
  | cons m ms ih =>
    intro z pool' hedit
    simp only [renameMembers, List.map_cons, bind_eq_ok, pure_eq_ok] at hedit ⊢
    obtain ⟨m', _, hm, ms', _, hms, rfl, rfl⟩ := hedit
    obtain ⟨rfl, rfl, hm'⟩ := settles_renameMember hid hwf kind m hm
    obtain ⟨rfl, rfl, hms'⟩ := ih hms
    exact ⟨rfl, rfl, _, _, hm', _, _, hms', rfl, rfl⟩

/-! ## Classes -/

/-- The attributes of a class settle at those that are no debug attributes. -/
theorem settles_classAttributes {as : List Attribute}
    (hplain : ∀ a ∈ as, ctx.oldPool.utf8 a.name = .ok "InnerClasses" →
      ∀ cs, InnerClass.parseAll a.payload = .ok cs → ∀ c ∈ cs, c.IsPlain ctx.oldPool) :
    Settles ctx.oldPool (editPayloads ctx strippedFromClass ctx.classPayload) as
      (as.filter (Place.classFile.keeps ctx.oldPool)) := by
  have h := settles_editPayloads .classFile id (fun _ => rfl)
    fun a (ha : a ∈ as) name hname => Settles.of_same fun p' pool h =>
      classPayload_still hid hwf (fun hinner => hplain a ha (hinner ▸ hname)) h
  rwa [List.map_id] at h

omit hid hwf in
theorem stripMember_field (pool : ConstantPool) (m : Member) : stripMember pool .field m = m := by
  have hattribute (a : Attribute) : stripAttribute pool .field a = a := by simp [stripAttribute]
  rw [stripMember, List.map_id'' hattribute]

/-- A class settles at its stripped form. -/
theorem editClass_still {c : ClassFile} (hold : ctx.oldPool = c.pool)
    (hplain : ∀ a ∈ c.attributes, c.pool.utf8 a.name = .ok "InnerClasses" →
      ∀ cs, InnerClass.parseAll a.payload = .ok cs → ∀ e ∈ cs, e.IsPlain c.pool)
    {edited : Edited} {pool : ConstantPool} (h : ctx.editClass c c.pool = .ok edited pool) :
    pool = c.pool ∧ edited = ⟨(strip c).fields, (strip c).methods, (strip c).attributes⟩
      ∧ ctx.editClass (strip c) c.pool = .ok edited c.pool := by
  rw [← hold] at hplain h ⊢
  simp only [editClass, bind_eq_ok, pure_eq_ok] at h ⊢
  obtain ⟨_, _, hconstants, fields, _, hfields, methods, _, hmethods, attributes, _, hattributes,
    rfl, rfl⟩ := h
  -- each step hands the old pool on to the next, so the steps run again from the same pool
  obtain ⟨rfl, -⟩ := still_renameConstants hid _ hconstants
  obtain ⟨rfl, rfl, hfields'⟩ := settles_renameMembers hid hwf .field c.fields hfields
  obtain ⟨rfl, rfl, hmethods'⟩ := settles_renameMembers hid hwf .method c.methods hmethods
  obtain ⟨rfl, rfl, hattributes'⟩ := settles_classAttributes hid hwf hplain hattributes
  have hsame : c.fields.map (stripMember ctx.oldPool .field) = (strip c).fields :=
    List.map_id'' (stripMember_field ctx.oldPool) c.fields
  have hmethods : (strip c).methods = c.methods.map (stripMember ctx.oldPool .method) := by
    rw [strip, hold]
  have hattributes : (strip c).attributes
      = c.attributes.filter (Place.classFile.keeps ctx.oldPool) := by
    rw [strip, hold]
  rw [hsame] at hfields' ⊢
  rw [hmethods, hattributes]
  exact ⟨rfl, rfl, _, _, hconstants, _, _, hfields', _, _, hmethods', _, _, hattributes', rfl, rfl⟩

end Context

/-- The entries of the lists of inner classes of a class. -/
def innerClasses (c : ClassFile) : List InnerClass :=
  (attributesNamed c.pool "InnerClasses" c.attributes).flatMap fun a =>
    (InnerClass.parseAll a.payload).toOption.getD []

/-- Every inner class is called by the end of its binary name. -/
def HasPlainNames (c : ClassFile) : Prop := ∀ e ∈ innerClasses c, e.IsPlain c.pool

theorem HasPlainNames.of_mem {c : ClassFile} (h : HasPlainNames c) {a : Attribute}
    (ha : a ∈ c.attributes) (hname : c.pool.utf8 a.name = .ok "InnerClasses") {cs : List InnerClass}
    (hcs : InnerClass.parseAll a.payload = .ok cs) {e : InnerClass} (he : e ∈ cs) :
    e.IsPlain c.pool := by
  have hnamed : a ∈ attributesNamed c.pool "InnerClasses" c.attributes :=
    List.mem_filter.2 ⟨ha, by simp [hname]⟩
  refine h e (List.mem_flatMap.2 ⟨a, hnamed, ?_⟩)
  rw [toOption_eq_some.2 hcs]
  exact he

/-- A renaming that renames nothing makes a parsed class into the stripped one, which can be written
and settles there. -/
theorem renameParsed_identity {c c' : ClassFile} {owner : String} (hfits : c.Fits)
    (hplain : HasPlainNames c) (h : renameParsed Resolver.identity c owner = .ok c') :
    c' = strip c ∧ (strip c).Fits
      ∧ renameParsed Resolver.identity (strip c) owner = .ok (strip c) := by
  unfold renameParsed at h
  split at h
  · rename_i edited pool hedit
    obtain rfl := Except.ok.inj h
    obtain ⟨hwf, hrenamed⟩ := Context.classRenamed_of_editClass rfl hfits.pool hedit
    have hid : (⟨Resolver.identity, c.pool, owner⟩ : Context).resolver = Resolver.identity := rfl
    obtain ⟨rfl, rfl, hagain⟩ := Context.editClass_still hid hfits.pool rfl
      (fun a ha hname cs hcs e he => hplain.of_mem ha hname hcs he) hedit
    refine ⟨rfl, (hrenamed (.refl hwf)).fits hwf hfits, ?_⟩
    have hagain : Context.editClass ⟨Resolver.identity, (strip c).pool, owner⟩ (strip c)
        (strip c).pool = _ := hagain
    rw [renameParsed, hagain]
    rfl
  · cases h

/-- **A renaming that renames nothing only strips.**  Take a resolver that gives every type, field
and method its own name, and a class that it renames, whose inner classes are called by the ends of
their binary names. What is written is the class without its debug attributes: the pool, the header,
the members and the bytes of every other attribute are those of the class. It is written and read
back as such, and renaming it again gives the same bytes. -/
theorem rename_strips {r : Resolver} {bytes : Bytes} {out : RenamedClass}
    (htype : ∀ name, r.type name = name)
    (hfield : ∀ owner name descriptor, r.field owner name descriptor = name)
    (hmethod : ∀ owner name descriptor, r.method owner name descriptor = name)
    (hplain : ∀ c, ClassFile.parse bytes = .ok c → HasPlainNames c)
    (h : rename r bytes = .ok out) :
    ∃ c, ClassFile.parse bytes = .ok c ∧ c.name = .ok out.oldName
      ∧ out = ⟨out.oldName, out.oldName, (strip c).encode⟩
      ∧ ClassFile.parse out.bytes = .ok (strip c)
      ∧ rename r out.bytes = .ok out := by
  obtain rfl : r = Resolver.identity := by
    obtain ⟨type, field, method⟩ := r
    obtain rfl : type = id := funext htype
    obtain rfl : field = fun _ name _ => name := funext fun o => funext fun n => funext (hfield o n)
    obtain rfl : method = fun _ name _ => name :=
      funext fun o => funext fun n => funext (hmethod o n)
    rfl
  simp only [rename, except_bind_eq_ok, except_pure_eq_ok] at h ⊢
  obtain ⟨c, hparse, oldName, hname, renamed, hrenamed, newName, hnewName, rfl⟩ := h
  obtain ⟨rfl, hfits, hagain⟩ :=
    renameParsed_identity (of_parse hparse).1 (hplain c hparse) hrenamed
  -- the pool and the index of the class itself are the same
  have hsame : (strip c).name = .ok oldName := hname
  obtain rfl : newName = oldName := Except.ok.inj (hnewName.symm.trans hsame)
  have hpool : (strip c).pool = c.pool := rfl
  have hread := ClassFile.parse_encode_of_parse hparse hpool hfits hsame
  exact ⟨c, hparse, hname, rfl, hread, strip c, hread, newName, hsame, strip c, hagain, newName,
    hsame, rfl⟩

/-! ## A class with debug data -/

/-- The class `P` up to its methods. -/
def debugFront : Bytes :=
  [0xca, 0xfe, 0xba, 0xbe, 0, 0, 0, 52, 0, 14,
    1, 0, 1, 80, 7, 0, 1,
    1, 0, 16, 106, 97, 118, 97, 47, 108, 97, 110, 103, 47, 79, 98, 106, 101, 99, 116, 7, 0, 3,
    1, 0, 3, 80, 36, 65, 7, 0, 5, 1, 0, 1, 65,
    1, 0, 12, 73, 110, 110, 101, 114, 67, 108, 97, 115, 115, 101, 115,
    1, 0, 10, 83, 111, 117, 114, 99, 101, 70, 105, 108, 101,
    1, 0, 1, 109, 1, 0, 3, 40, 41, 86, 1, 0, 4, 67, 111, 100, 101,
    1, 0, 15, 76, 105, 110, 101, 78, 117, 109, 98, 101, 114, 84, 97, 98, 108, 101,
    0, 33, 0, 2, 0, 4, 0, 0, 0, 0]

/-- The class with a method that has line numbers, the name of its source, and a class inside. -/
def debugClass : Bytes :=
  debugFront ++
    [0, 1, 0, 1, 0, 10, 0, 11, 0, 1,
      0, 12, 0, 0, 0, 25, 0, 0, 0, 1, 0, 0, 0, 1, 177, 0, 0,
      0, 1, 0, 13, 0, 0, 0, 6, 0, 1, 0, 0, 0, 5,
      0, 2, 0, 9, 0, 0, 0, 2, 0, 1, 0, 8, 0, 0, 0, 10, 0, 1, 0, 6, 0, 2, 0, 7, 0, 8]

/-- The class without line numbers and source. -/
def strippedClass : RenamedClass where
  oldName := "P"
  name := "P"
  bytes :=
    debugFront ++
      [0, 1, 0, 1, 0, 10, 0, 11, 0, 1,
        0, 12, 0, 0, 0, 13, 0, 0, 0, 1, 0, 0, 0, 1, 177, 0, 0, 0, 0,
        0, 1, 0, 8, 0, 0, 0, 10, 0, 1, 0, 6, 0, 2, 0, 7, 0, 8]

set_option maxRecDepth 10000 in
theorem rename_debugClass : rename Resolver.identity debugClass = .ok strippedClass := by
  decide +kernel

set_option maxRecDepth 10000 in
theorem innerClasses_debugClass :
    (ClassFile.parse debugClass).toOption.map (fun c =>
      (innerClasses c, c.pool.className 6, c.pool.utf8 7))
      = some ([⟨6, 2, 7, 8⟩], .ok "P$A", .ok "A") := by
  decide +kernel

theorem hasPlainNames_debugClass {c : ClassFile} (h : ClassFile.parse debugClass = .ok c) :
    HasPlainNames c := by
  have hinner := innerClasses_debugClass
  rw [h] at hinner
  simp only [Except.toOption, Option.map_some, Option.some.injEq, Prod.mk.injEq] at hinner
  obtain ⟨hentries, hbinary, hsimple⟩ := hinner
  intro e he
  obtain rfl := List.mem_singleton.1 (hentries ▸ he)
  intro _ binary simple hbinary' hsimple' _ _
  obtain rfl : "P$A" = binary := Except.ok.inj (hbinary.symm.trans hbinary')
  obtain rfl : "A" = simple := Except.ok.inj (hsimple.symm.trans hsimple')
  decide

theorem rename_strips_debugClass :
    ∃ c, ClassFile.parse debugClass = .ok c ∧ HasPlainNames c
      ∧ rename Resolver.identity debugClass = .ok strippedClass
      ∧ strippedClass.bytes = (strip c).encode ∧ strippedClass.bytes ≠ debugClass
      ∧ ClassFile.parse strippedClass.bytes = .ok (strip c)
      ∧ rename Resolver.identity strippedClass.bytes = .ok strippedClass := by
  obtain ⟨c, hparse, -, hout, hread, hagain⟩ := rename_strips (fun _ => rfl) (fun _ _ _ => rfl)
    (fun _ _ _ => rfl) (fun _ => hasPlainNames_debugClass) rename_debugClass
  exact ⟨c, hparse, hasPlainNames_debugClass hparse, rename_debugClass,
    congrArg RenamedClass.bytes hout, by decide, hread, hagain⟩

end Jarwright.Renaming
