import Jarwright.Proofs.Renaming.Linkage

/-!
# The lists of attributes of a class

A class has attributes of its own, and so have its fields, its methods, the bodies of these and the
components of a record. `AttributeSite` names these lists, `attributesAt?` is the list at a site.

A renaming works on each of them by the rules for its place: `ClassRenamed.attributesAt` says so for
all sites at once, so what holds of one list of attributes under a renaming is proved once.
-/

namespace Jarwright.Renaming

open ClassFile ConstantPool

/-- Where a list of attributes stands in a class. -/
inductive AttributeSite where
  | ofClass
  | ofField (index : Nat)
  | ofMethod (index : Nat)
  /-- A body of a method, by its place among the attributes that give one. -/
  | ofBody (method index : Nat)
  /-- A component of a record, by the place of the attribute that gives the record. -/
  | ofComponent (record index : Nat)
  deriving DecidableEq, Repr, Inhabited

/-- The kind of place that a site is. -/
def AttributeSite.place : AttributeSite → Place
  | ofClass => .classFile
  | ofField _ => .field
  | ofMethod _ => .method
  | ofBody _ _ => .code
  | ofComponent _ _ => .component

/-- The list of attributes at a site, if the class has the site. -/
def attributesAt? (c : ClassFile) : AttributeSite → Option (List Attribute)
  | .ofClass => some c.attributes
  | .ofField k => (c.fields[k]?).map Member.attributes
  | .ofMethod k => (c.methods[k]?).map Member.attributes
  | .ofBody k i =>
    (c.methods[k]?).bind fun m =>
      ((attributesNamed c.pool "Code" m.attributes)[i]?).bind fun a =>
        (Code.parse a.payload).toOption.map Code.attributes
  | .ofComponent k i =>
    ((attributesNamed c.pool "Record" c.attributes)[k]?).bind fun a =>
      (Component.parseAll a.payload).toOption.bind fun cs => (cs[i]?).map Component.attributes

/-! ## Options that are related -/

section Options

variable {α β γ δ : Type} {R : α → β → Prop} {S : γ → δ → Prop}

theorem rel_getElem? {xs : List α} {ys : List β} (h : List.Forall₂ R xs ys) (i : Nat) :
    Option.Rel R xs[i]? ys[i]? := by
  induction h generalizing i with
  | nil => exact .none
  | cons hxy _ ih =>
    cases i with
    | zero => exact .some hxy
    | succ i => exact ih i

theorem rel_imp {T : α → β → Prop} {x : Option α} {y : Option β} (h : Option.Rel R x y)
    (hRT : ∀ a b, R a b → T a b) : Option.Rel T x y := by
  cases h with
  | none => exact .none
  | some hab => exact .some (hRT _ _ hab)

theorem rel_bind {x : Option α} {y : Option β} {f : α → Option γ} {g : β → Option δ}
    (h : Option.Rel R x y) (hfg : ∀ a b, R a b → Option.Rel S (f a) (g b)) :
    Option.Rel S (x.bind f) (y.bind g) := by
  cases h with
  | none => exact .none
  | some hab => exact hfg _ _ hab

theorem rel_map {x : Option α} {y : Option β} {f : α → γ} {g : β → δ} (h : Option.Rel R x y)
    (hfg : ∀ a b, R a b → S (f a) (g b)) : Option.Rel S (x.map f) (y.map g) := by
  cases h with
  | none => exact .none
  | some hab => exact .some (hfg _ _ hab)

end Options

/-! ## What a renaming does at a site -/

namespace Context

/-- A payload before and after, by the place of its attribute. -/
def PayloadRenamed (ctx : Context) (final : ConstantPool) : Place → String → Bytes → Bytes → Prop
  | .classFile => ctx.ClassPayloadRenamed final
  | .field => ctx.LeafRenamed final .fieldSite
  | .method => ctx.MethodPayloadRenamed final
  | .code => ctx.LeafRenamed final .fieldSite
  | .component => ctx.LeafRenamed final .fieldSite

/-- A list of attributes before and after, by its place. -/
abbrev ListRenamed (ctx : Context) (final : ConstantPool) (place : Place) :
    List Attribute → List Attribute → Prop :=
  ctx.AttributesRenamed final place.stripped (ctx.PayloadRenamed final place)

variable {ctx : Context} {c c' : ClassFile}

theorem ClassRenamed.attributesAt (h : ctx.ClassRenamed c c') (hold : ctx.oldPool = c.pool)
    (site : AttributeSite) :
    Option.Rel (ctx.ListRenamed c'.pool site.place) (attributesAt? c site)
      (attributesAt? c' site) := by
  match site with
  | .ofClass => exact .some h.attributes
  | .ofField k => exact rel_map (rel_getElem? h.fields k) fun _ _ hm => hm.attributes
  | .ofMethod k => exact rel_map (rel_getElem? h.methods k) fun _ _ hm => hm.attributes
  | .ofBody k i =>
    refine rel_bind (rel_getElem? h.methods k) fun m m' hm => ?_
    have hnamed := hm.attributes.named "Code" (by simp)
    rw [hold] at hnamed
    refine rel_bind (rel_getElem? hnamed i) fun a a' hp => ?_
    obtain ⟨b, b', hb, hb', hcode⟩ := MethodPayloadRenamed.code_inv hp rfl
    rw [hb, hb']
    exact .some hcode.attributes
  | .ofComponent k i =>
    have hnamed := h.attributes.named "Record" (by decide)
    rw [hold] at hnamed
    refine rel_bind (rel_getElem? hnamed k) fun a a' hp => ?_
    obtain ⟨cs, cs', hcs, hcs', hall⟩ := hp.record_inv rfl
    rw [hcs, hcs']
    exact rel_map (rel_getElem? hall i) fun _ _ hcomponent => hcomponent.attributes

end Context

end Jarwright.Renaming
