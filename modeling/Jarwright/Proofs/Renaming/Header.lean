import Jarwright.Proofs.ClassFile.Header
import Jarwright.Proofs.Renaming.Symbols

/-!
# What a renaming makes of the header of a class

A header is resolved through the pool alone, so what becomes of it follows from what becomes of the
slots that name classes.

* `HeaderRenamed r h h'` maps every class name of a header and keeps their order;
* `PoolRenamed.className` and its siblings follow one index, or a list of them, and
  `PoolRenamed.exists_className` goes back: a slot names a class only if it did so before;
* `ClassRenamed.header` and `ClassRenamed.exists_header` put them together. A class that is renamed
  has the renamed header, and it has one at all exactly if it had one before.
-/

namespace Jarwright.Renaming

open ClassFile ConstantPool

/-! ## Lists of results -/

section Lists

variable {ε α β α' β' : Type} {f : α → Except ε β} {xs : List α} {ys : List β}

theorem mapM_eq_ok : xs.mapM f = .ok ys ↔ List.Forall₂ (fun x y => f x = .ok y) xs ys := by
  induction xs generalizing ys with
  | nil =>
    rw [List.mapM_nil, except_pure_eq_ok, List.forall₂_nil_left_iff]
    exact eq_comm
  | cons x xs ih =>
    simp only [List.mapM_cons, except_bind_eq_ok, except_pure_eq_ok, List.forall₂_cons_left_iff, ih]
    constructor
    · rintro ⟨y, hy, ys, hys, rfl⟩
      exact ⟨y, ys, hy, hys, rfl⟩
    · rintro ⟨y, ys, hy, hys, rfl⟩
      exact ⟨y, hy, ys, hys, rfl⟩

theorem exists_mapM_eq_ok : (∃ ys, xs.mapM f = .ok ys) ↔ ∀ x ∈ xs, ∃ y, f x = .ok y := by
  induction xs with
  | nil => simp [pure, Except.pure]
  | cons x xs ih =>
    simp only [List.mapM_cons, except_bind_eq_ok, except_pure_eq_ok, List.forall_mem_cons, ← ih]
    constructor
    · rintro ⟨_, y, hy, ys, hys, rfl⟩
      exact ⟨⟨y, hy⟩, ys, hys⟩
    · rintro ⟨⟨y, hy⟩, ys, hys⟩
      exact ⟨_, y, hy, ys, hys, rfl⟩

theorem mem_mapM_iff (h : xs.mapM f = .ok ys) {y : β} : y ∈ ys ↔ ∃ x ∈ xs, f x = .ok y := by
  induction xs generalizing ys with
  | nil =>
    obtain rfl := except_pure_eq_ok.1 h
    simp
  | cons x xs ih =>
    simp only [List.mapM_cons, except_bind_eq_ok, except_pure_eq_ok] at h
    obtain ⟨first, hfirst, rest, hrest, rfl⟩ := h
    rw [List.mem_cons, ih hrest, List.exists_mem_cons_iff, hfirst, Except.ok.injEq]
    exact or_congr_left eq_comm

/-- Results of related members are related, in order. -/
theorem mapM_of_forall₂ {g : α' → Except ε β'} {R : α → α' → Prop} {S : β → β' → Prop}
    {xs' : List α'} (hxs : List.Forall₂ R xs xs')
    (hstep : ∀ x x', R x x' → ∀ y, f x = .ok y → ∃ y', g x' = .ok y' ∧ S y y')
    (hys : xs.mapM f = .ok ys) : ∃ ys', xs'.mapM g = .ok ys' ∧ List.Forall₂ S ys ys' := by
  induction hxs generalizing ys with
  | nil =>
    obtain rfl := except_pure_eq_ok.1 hys
    exact ⟨[], rfl, .nil⟩
  | cons hx _ ih =>
    simp only [List.mapM_cons, except_bind_eq_ok, except_pure_eq_ok] at hys
    obtain ⟨y, hy, ys, hys, rfl⟩ := hys
    obtain ⟨y', hy', hS⟩ := hstep _ _ hx y hy
    obtain ⟨ys', hys', hSs⟩ := ih hys
    exact ⟨y' :: ys', by simp [List.mapM_cons, hy', hys'], .cons hS hSs⟩

end Lists

/-! ## Headers -/

/-- The new form of what a class says about its supertypes. -/
def renameParents (r : Resolver) (p : Parents) : Except Fault Parents := do
  let superName ← p.superName.mapM (ClassName.map r.type)
  let interfaces ← p.interfaces.mapM (ClassName.map r.type)
  return ⟨superName, interfaces⟩

/-- A header before and after. -/
structure HeaderRenamed (r : Resolver) (h h' : Header) : Prop where
  flags : h'.flags = h.flags
  name : ClassName.map r.type h.name = .ok h'.name
  parents : renameParents r ⟨h.superName, h.interfaces⟩ = .ok ⟨h'.superName, h'.interfaces⟩

theorem renameParents_eq_ok {r : Resolver} {p p' : Parents} :
    renameParents r p = .ok p' ↔ p.superName.mapM (ClassName.map r.type) = .ok p'.superName
      ∧ p.interfaces.mapM (ClassName.map r.type) = .ok p'.interfaces := by
  simp only [renameParents, except_bind_eq_ok, except_pure_eq_ok]
  constructor
  · rintro ⟨superName, hsuper, interfaces, hinterfaces, rfl⟩
    exact ⟨hsuper, hinterfaces⟩
  · rintro ⟨hsuper, hinterfaces⟩
    exact ⟨_, hsuper, _, hinterfaces, rfl⟩

/-- The supertypes keep their order, the superclass in front. -/
theorem mapM_toList_of_renameParents {r : Resolver} {p p' : Parents}
    (h : renameParents r p = .ok p') :
    p.toList.mapM (ClassName.map r.type) = .ok p'.toList := by
  obtain ⟨hsuper, hinterfaces⟩ := renameParents_eq_ok.1 h
  have hfront : p.superName.toList.mapM (ClassName.map r.type) = .ok p'.superName.toList := by
    cases hp : p.superName with
    | none =>
      rw [hp, Option.mapM_none, except_pure_eq_ok] at hsuper
      rw [← hsuper]
      rfl
    | some name =>
      rw [hp, Option.mapM_some, except_map_eq_ok] at hsuper
      obtain ⟨new, hnew, hsuper⟩ := hsuper
      rw [← hsuper]
      exact mapM_eq_ok.2 (.cons hnew .nil)
  rw [Parents.toList, List.mapM_append, hfront]
  simp [hinterfaces, Parents.toList]

namespace Context

variable {ctx : Context} {final : ConstantPool}

namespace PoolRenamed

/-- A slot names a class only if it did so before. -/
theorem exists_className (h : ctx.PoolRenamed final) {i : UInt16} {new : String}
    (hnew : final.className i = .ok new) : ∃ old, ctx.oldPool.className i = .ok old := by
  obtain ⟨n', hslot', -⟩ := className_eq_ok.1 hnew
  by_cases hi : i.toNat < ctx.oldPool.count
  · have hslot : ctx.oldPool.places[i.toNat]? = some ctx.oldPool.places[i.toNat] :=
      List.getElem?_eq_getElem hi
    obtain ⟨c', hc', hrenamed⟩ := h.slots _ _ hslot
    obtain rfl : c' = .classRef n' := Option.some.inj (hc'.symm.trans hslot')
    generalize ctx.oldPool.places[i.toNat] = c at hslot hrenamed
    cases hrenamed with
    | classRef hname =>
      obtain ⟨old, _, -, hex⟩ := hname
      exact ⟨old, className_eq_ok.2 ⟨_, hslot, hex.before⟩⟩
    | other hno => cases hno
  · -- what stands behind the old slots is names
    obtain ⟨front, names, hplaces, hlen, hnames⟩ := h.added
    rw [hplaces, List.getElem?_append_right (by omega)] at hslot'
    cases hnames _ (List.mem_of_getElem? hslot')

theorem superName (h : ctx.PoolRenamed final) {i : UInt16} {old : Option String}
    (hold : superNameOf ctx.oldPool i = .ok old) :
    ∃ new, old.mapM (ClassName.map ctx.resolver.type) = .ok new
      ∧ superNameOf final i = .ok new := by
  rcases superNameOf_eq_ok.1 hold with ⟨hzero, rfl⟩ | ⟨hzero, name, hname, rfl⟩
  · exact ⟨none, rfl, superNameOf_eq_ok.2 (.inl ⟨hzero, rfl⟩)⟩
  · obtain ⟨new, hmap, hnew⟩ := h.className hname
    exact ⟨some new, by simp [hmap], superNameOf_eq_ok.2 (.inr ⟨hzero, new, hnew, rfl⟩)⟩

theorem exists_superName (h : ctx.PoolRenamed final) {i : UInt16} {new : Option String}
    (hnew : superNameOf final i = .ok new) : ∃ old, superNameOf ctx.oldPool i = .ok old := by
  rcases superNameOf_eq_ok.1 hnew with ⟨hzero, -⟩ | ⟨hzero, name, hname, -⟩
  · exact ⟨none, superNameOf_eq_ok.2 (.inl ⟨hzero, rfl⟩)⟩
  · obtain ⟨old, hold⟩ := h.exists_className hname
    exact ⟨some old, superNameOf_eq_ok.2 (.inr ⟨hzero, old, hold, rfl⟩)⟩

/-- A list of classes keeps its slots and gets its new names. -/
theorem classNames (h : ctx.PoolRenamed final) {indices : List UInt16} {old : List String}
    (hold : indices.mapM ctx.oldPool.className = .ok old) :
    ∃ new, old.mapM (ClassName.map ctx.resolver.type) = .ok new
      ∧ indices.mapM final.className = .ok new := by
  obtain ⟨new, hnew, hmap⟩ := mapM_of_forall₂ (R := Eq) (g := final.className)
    (S := fun old new => ClassName.map ctx.resolver.type old = .ok new)
    (List.forall₂_same.2 fun _ _ => rfl) (by
      rintro i _ rfl name hname
      obtain ⟨name', hmap, hname'⟩ := h.className hname
      exact ⟨name', hname', hmap⟩) hold
  exact ⟨new, mapM_eq_ok.2 hmap, hnew⟩

theorem exists_classNames (h : ctx.PoolRenamed final) {indices : List UInt16} {new : List String}
    (hnew : indices.mapM final.className = .ok new) :
    ∃ old, indices.mapM ctx.oldPool.className = .ok old := by
  refine exists_mapM_eq_ok.2 fun i hi => ?_
  obtain ⟨_, hname⟩ := exists_mapM_eq_ok.1 ⟨_, hnew⟩ i hi
  exact h.exists_className hname

end PoolRenamed

namespace ClassRenamed

variable {c c' : ClassFile} (hc : ctx.ClassRenamed c c') (hold : ctx.oldPool = c.pool)

include hc hold

/-- A class that is renamed says the new form of what it said. -/
theorem header {h : Header} (hh : c.header = .ok h) :
    ∃ h', c'.header = .ok h' ∧ HeaderRenamed ctx.resolver h h' := by
  obtain ⟨hflags, hname, hsuper, hinterfaces⟩ := header_eq_ok.1 hh
  rw [← hold] at hname hsuper hinterfaces
  obtain ⟨name, hmap, hname'⟩ := hc.pool.className hname
  obtain ⟨superName, hmapSuper, hsuper'⟩ := hc.pool.superName hsuper
  obtain ⟨interfaces, hmapInterfaces, hinterfaces'⟩ := hc.pool.classNames hinterfaces
  refine ⟨⟨h.flags, name, superName, interfaces⟩, ?_, rfl, hmap,
    renameParents_eq_ok.2 ⟨hmapSuper, hmapInterfaces⟩⟩
  rw [header_eq_ok, hc.flags, hc.thisClass, hc.superClass, hc.interfaces]
  exact ⟨hflags, hname', hsuper', hinterfaces'⟩

/-- A class that is renamed has a header only if it had one before. -/
theorem exists_header {h' : Header} (hh : c'.header = .ok h') : ∃ h, c.header = .ok h := by
  rw [header_eq_ok, hc.thisClass, hc.superClass, hc.interfaces] at hh
  obtain ⟨-, hname', hsuper', hinterfaces'⟩ := hh
  obtain ⟨name, hname⟩ := hc.pool.exists_className hname'
  obtain ⟨superName, hsuper⟩ := hc.pool.exists_superName hsuper'
  obtain ⟨interfaces, hinterfaces⟩ := hc.pool.exists_classNames hinterfaces'
  rw [hold] at hname hsuper hinterfaces
  exact ⟨⟨c.flags, name, superName, interfaces⟩,
    header_eq_ok.2 ⟨rfl, hname, hsuper, hinterfaces⟩⟩

end ClassRenamed

end Context

end Jarwright.Renaming
