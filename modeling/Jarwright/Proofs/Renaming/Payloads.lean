import Jarwright.Proofs.Renaming.Attributes

/-!
# What the edits of attributes yield

Each edit of a payload or of a list of attributes yields what the relation of the same name allows,
for every last pool that keeps the names of the old one. There is one lemma for each edit, and the
edit of a structure is put together from the edits of its parts.
-/

namespace Jarwright.Renaming.Context

open ClassFile ConstantPool
open Reader (Counted)

variable {ctx : Context} {final : ConstantPool} (hkeep : ctx.oldPool.KeepsNames final)

include hkeep

/-! ## Payloads in any place -/

theorem yields_signaturePayload (site : Signature.Site) (payload : Bytes) :
    Yields final (ctx.signaturePayload site payload)
      (ctx.LeafRenamed final site "Signature" payload) := by
  refine ((Yields.lookUp _).bind fun i => (Yields.lookUp _).bind fun old =>
    (Yields.lookUp _).bind fun new => (yields_exchangeText hkeep i new).bind fun i' =>
      Yields.pure (putU2 i')).mono ?_
  rintro _ ⟨i, hi, old, hold, new, hnew, i', ⟨_, hex⟩, rfl⟩
  simp only [Reader.eval_eq_ok, Reader.whole_eq_ok, Reader.u2_eq_ok, List.append_nil] at hi
  obtain ⟨_, rfl, rfl⟩ := hi
  exact .signature ⟨old, new, hnew, hex.of_eq hold⟩

theorem yields_leafPayload (site : Signature.Site) (name : String) (payload : Bytes) :
    Yields final (ctx.leafPayload site name payload) (ctx.LeafRenamed final site name payload) := by
  have hvisit := yields_exchangeDescriptor hkeep
  unfold leafPayload
  by_cases h₁ : name = "Signature"
  · subst h₁
    rw [if_pos rfl]
    exact yields_signaturePayload hkeep site payload
  rw [if_neg h₁]
  by_cases h₂ : name = "RuntimeVisibleAnnotations" ∨ name = "RuntimeInvisibleAnnotations"
  · rw [if_pos h₂]
    refine ((Yields.run (takes_readTrees hvisit) payload).bind fun ts => Yields.pure _).mono ?_
    rintro _ ⟨ts', ⟨ts, rfl, hcount, hts⟩, rfl⟩
    exact .annotations h₂ hcount hts
  rw [if_neg h₂]
  by_cases h₃ : name = "RuntimeVisibleParameterAnnotations"
      ∨ name = "RuntimeInvisibleParameterAnnotations"
  · rw [if_pos h₃]
    refine ((Yields.run (takes_readParameters hvisit) payload).bind fun ps => Yields.pure _).mono ?_
    rintro _ ⟨ps', ⟨ps, rfl, hcount, hps⟩, rfl⟩
    exact .parameters h₃ hcount hps
  rw [if_neg h₃]
  by_cases h₄ : name = "RuntimeVisibleTypeAnnotations" ∨ name = "RuntimeInvisibleTypeAnnotations"
  · rw [if_pos h₄]
    refine ((Yields.run (takes_readTypeUses hvisit) payload).bind fun us => Yields.pure _).mono ?_
    rintro _ ⟨us', ⟨us, rfl, hcount, hus⟩, rfl⟩
    exact .typeUses h₄ hcount hus
  · rw [if_neg h₄]
    refine (Yields.pure payload).mono ?_
    rintro _ rfl
    refine .other ?_
    simp only [not_or] at h₂ h₃ h₄
    simp [leafNames, h₁, h₂, h₃, h₄]

/-! ## Lists of attributes -/

theorem yields_editPayloads (stripped : List String) {payload : String → Bytes → Edit Bytes}
    {R : String → Bytes → Bytes → Prop} (h : ∀ name p, Yields final (payload name p) (R name p))
    (as : List Attribute) :
    Yields final (editPayloads ctx stripped payload as)
      (ctx.AttributesRenamed final stripped R as) := by
  induction as with
  | nil =>
    refine (Yields.pure []).mono ?_
    rintro _ rfl
    exact .nil
  | cons a as ih =>
    rw [editPayloads]
    refine ((Yields.lookUp _).bind (q := fun name as' => ctx.oldPool.utf8 a.name = .ok name →
      ctx.AttributesRenamed final stripped R (a :: as) as') fun name => ?_).mono ?_
    · by_cases hname : stripped.contains name = true
      · rw [if_pos hname]
        refine ih.mono fun as' has hold => ?_
        exact .dropped hold (by simpa using hname) has
      · rw [if_neg hname]
        refine ((h name a.payload).bind fun new => ih.bind fun more =>
          Yields.pure (Attribute.mk a.name new :: more)).mono ?_
        rintro _ ⟨new, hnew, more, hmore, rfl⟩ hold
        exact .kept hold (by simpa using hname) rfl (hkeep.utf8 hold) hnew hmore
    · rintro as' ⟨name, hold, h⟩
      exact h hold

/-! ## Methods -/

theorem yields_codePayload (payload : Bytes) :
    Yields final (ctx.codePayload payload)
      (ctx.MethodPayloadRenamed final "Code" payload) := by
  refine ((Yields.lookUp (Code.parse payload)).bind fun b =>
    (yields_editPayloads hkeep strippedFromCode (yields_leafPayload hkeep .fieldSite)
      b.attributes).bind fun as =>
      Yields.pure _).mono ?_
  rintro _ ⟨b, hb, as, has, rfl⟩
  have hfits := (Code.parse_eq_ok.1 hb).1
  have hattributes := has.counted (fun h => Nat.le_of_eq h.length_eq) hfits.attributes
  have hfits' : ({ b with attributes := as } : Code).Fits :=
    ⟨hfits.bytecode, hfits.handlers, hattributes⟩
  exact .code hb (Code.parse_eq_ok.2 ⟨hfits', rfl⟩) ⟨rfl, rfl, rfl, rfl, has⟩

theorem yields_methodPayload (name : String) (payload : Bytes) :
    Yields final (ctx.methodPayload name payload)
      (ctx.MethodPayloadRenamed final name payload) := by
  unfold methodPayload
  by_cases hcode : name = "Code"
  · subst hcode
    rw [if_pos rfl]
    exact yields_codePayload hkeep payload
  rw [if_neg hcode]
  by_cases hdefault : name = "AnnotationDefault"
  · subst hdefault
    rw [if_pos rfl]
    refine ((Yields.run (takes_readElementValue (yields_exchangeDescriptor hkeep)) payload).bind
      fun v => Yields.pure v.encode).mono ?_
    rintro _ ⟨v', ⟨v, rfl, hv⟩, rfl⟩
    exact .annotationDefault hv
  · rw [if_neg hdefault]
    exact (yields_leafPayload hkeep .methodSite name payload).mono fun _ => .leaf hcode hdefault

theorem yields_memberPayload (kind : MemberKind) (name : String) (payload : Bytes) :
    Yields final (ctx.memberPayload kind name payload)
      (ctx.MemberPayloadRenamed final kind name payload) := by
  cases kind with
  | field => exact yields_leafPayload hkeep .fieldSite name payload
  | method => exact yields_methodPayload hkeep name payload

/-! ## Classes -/

theorem takes_readInnerClass :
    Takes final ctx.readInnerClass
      (fun taken c' => ∃ c : InnerClass, taken = c.encode ∧ ctx.InnerClassRenamed final c c') := by
  refine (Takes.u2_bind fun inner => Takes.u2_bind fun outer => Takes.u2_bind fun name =>
    Takes.u2_bind (q := fun flags taken c' => taken = [] ∧
      ctx.InnerClassRenamed final ⟨inner, outer, name, flags⟩ c') fun flags => ?_).mono ?_
  · by_cases hname : name = 0
    · rw [if_pos hname]
      refine (Takes.pure _).mono ?_
      rintro taken c' ⟨rfl, rfl⟩
      exact ⟨rfl, rfl, rfl, rfl, .inl ⟨hname, hname⟩⟩
    · rw [if_neg hname]
      refine (Takes.edit_bind (Yields.lookUp _) fun binary =>
        Takes.edit_bind (Yields.lookUp _) fun simple =>
          Takes.edit_bind (yields_exchangeText hkeep name _) fun name' => Takes.pure _).mono ?_
      rintro taken c' ⟨binary, hbinary, simple, hsimple, name', ⟨_, hex⟩, rfl, rfl⟩
      exact ⟨rfl, rfl, rfl, rfl, .inr ⟨hname, binary, simple, hbinary, hex.of_eq hsimple⟩⟩
  · rintro taken c' ⟨inner, _, rfl, outer, _, rfl, name, _, rfl, flags, _, rfl, rfl, h⟩
    exact ⟨⟨inner, outer, name, flags⟩, by simp [InnerClass.encode], h⟩

theorem takes_readEnclosingMethod :
    Takes final ctx.readEnclosingMethod
      (fun taken p => ∃ m, taken = putU2 p.1 ++ putU2 m
        ∧ (m = 0 ∧ p.2 = 0 ∨ m ≠ 0 ∧ ctx.MemberRenamedAt final .method p.1 m p.2)) := by
  refine (Takes.u2_bind fun owner => Takes.u2_bind (q := fun m taken p => taken = [] ∧ p.1 = owner
    ∧ (m = 0 ∧ p.2 = 0 ∨ m ≠ 0 ∧ ctx.MemberRenamedAt final .method p.1 m p.2)) fun m => ?_).mono ?_
  · by_cases hm : m = 0
    · rw [if_pos hm]
      refine (Takes.pure _).mono ?_
      rintro taken p ⟨rfl, rfl⟩
      exact ⟨rfl, rfl, .inl ⟨hm, hm⟩⟩
    · rw [if_neg hm]
      refine (Takes.edit_bind (yields_memberRef hkeep .method owner m) fun new =>
        Takes.pure _).mono ?_
      rintro taken p ⟨new, hnew, rfl, rfl⟩
      exact ⟨rfl, rfl, .inr ⟨hm, hnew⟩⟩
  · rintro taken p ⟨owner, _, rfl, m, _, rfl, rfl, rfl, h⟩
    exact ⟨m, by simp, h⟩

theorem takes_readComponent :
    Takes final ctx.readComponent
      (fun taken c' => ∃ c : Component, taken = c.encode
        ∧ c.Fits ∧ ctx.ComponentRenamed final c c') := by
  have hattributes : Takes final (Payload.read Attribute.readAll)
      (fun taken as => Counted Attribute.Fits as ∧ taken = Attribute.encodeAll as) :=
    Takes.read fun _ _ _ h =>
      have h := Attribute.readAll_eq_ok.1 h
      ⟨_, h.2, h.1, rfl⟩
  refine (Takes.u2_bind fun n => Takes.u2_bind fun d =>
    Takes.edit_bind (Yields.lookUp (ctx.oldPool.utf8 n)) fun oldName =>
    Takes.edit_bind (Yields.lookUp (ctx.oldPool.utf8 d)) fun oldDescriptor =>
    Takes.edit_bind (Yields.lookUp (ctx.resolver.descriptor oldDescriptor)) fun newDescriptor =>
    Takes.edit_bind (yields_exchangeText hkeep n _) fun n' =>
    Takes.edit_bind (yields_exchangeText hkeep d newDescriptor) fun d' =>
    hattributes.bind fun as =>
    Takes.edit_bind (yields_editPayloads hkeep [] (yields_leafPayload hkeep .fieldSite) as)
      fun as' => Takes.pure (Component.mk n' d' as')).mono ?_
  rintro taken c' ⟨n, _, rfl, d, _, rfl, oldName, hname, oldDescriptor, hdescriptor, newDescriptor,
    hnew, n', ⟨_, hn⟩, d', ⟨_, hd⟩, _, as, _, rfl, ⟨hfit, rfl⟩, as', has, rfl, rfl⟩
  refine ⟨⟨n, d, as⟩, by simp [Component.encode], hfit, ?_, has⟩
  exact ⟨oldName, oldDescriptor, newDescriptor, hnew, hn.of_eq hname, hd.of_eq hdescriptor⟩

theorem yields_classPayload (name : String) (payload : Bytes) :
    Yields final (ctx.classPayload name payload) (ctx.ClassPayloadRenamed final name payload) := by
  unfold classPayload
  by_cases hinner : name = "InnerClasses"
  · subst hinner
    rw [if_pos rfl]
    refine ((Yields.run (Takes.counted (takes_readInnerClass hkeep)) payload).bind fun cs =>
      Yields.pure _).mono ?_
    rintro _ ⟨cs', ⟨cs, rfl, hcount, hcs⟩, rfl⟩
    exact .innerClasses hcount hcs
  rw [if_neg hinner]
  by_cases henclosing : name = "EnclosingMethod"
  · subst henclosing
    rw [if_pos rfl]
    refine ((Yields.run (takes_readEnclosingMethod hkeep) payload).bind fun p =>
      Yields.pure _).mono ?_
    rintro _ ⟨⟨owner, m'⟩, ⟨m, rfl, h⟩, rfl⟩
    exact .enclosingMethod h
  rw [if_neg henclosing]
  by_cases hrecord : name = "Record"
  · subst hrecord
    rw [if_pos rfl]
    refine ((Yields.run (Takes.counted (takes_readComponent hkeep)) payload).bind fun cs =>
      Yields.pure _).mono ?_
    rintro _ ⟨cs', ⟨cs, rfl, hcount, hcs⟩, rfl⟩
    obtain ⟨hfits, hrenamed⟩ := (List.forall₂_and_left _ _).1 hcs
    have hcounted : Counted Component.Fits cs := ⟨hcount, hfits⟩
    have hcounted' := counted_of_forall₂ hrenamed (fun _ _ h => h.fits) hcounted
    exact .record (Component.parseAll_eq_ok.2 ⟨hcounted, rfl⟩)
      (Component.parseAll_eq_ok.2 ⟨hcounted', rfl⟩) hrenamed
  · rw [if_neg hrecord]
    exact (yields_leafPayload hkeep .classSite name payload).mono fun _ =>
      .leaf hinner henclosing hrecord

end Jarwright.Renaming.Context
