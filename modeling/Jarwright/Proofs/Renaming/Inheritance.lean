import Jarwright.Proofs.Hierarchy
import Jarwright.Proofs.Mapping.Compact
import Jarwright.Renaming.Constants

/-!
# Names of inherited members

A table by owner answers for a member with the first entry that a search from its owner meets. All
parts of one search share a list of the types seen, so what a search finds behind the superclass
depends on what it met above the superclass. Without cycles that makes no difference:

* `findSome?_depthFirst`: types that were seen and gave no answer cannot hide one, so each supertype
  answers as in a search of its own;
* `Acyclic.find?_eq`: a search is the plain recursion: the type itself, and then its supertypes in
  order;
* `byOwner_inherits` says so of the names of fields and methods: a type without an entry of its own
  calls a member as its superclass does, if an entry is found from there, and else as the first
  interface from which one is found.

Constructors and class initialisers are outside of this: they keep their names whatever a table
says.
-/

namespace Jarwright

namespace Hierarchy

/-- No type is above itself. -/
def Acyclic (h : Hierarchy) : Prop :=
  ∀ ⦃name parent : String⦄, parent ∈ h.supertypes name → ¬ h.IsAbove parent name

/-- Types with a rank that grows from each supertype to its subtypes form no cycle. -/
theorem acyclic_of_rank {h : Hierarchy} (rank : String → Nat)
    (hrank : ∀ name, ∀ parent ∈ h.supertypes name, rank parent < rank name) : h.Acyclic := by
  intro name parent hparent habove
  have hle {x : String} (hx : h.IsAbove parent x) : rank x ≤ rank parent := by
    induction hx with
    | refl => exact Nat.le_refl _
    | tail _ hsuper ih => exact Nat.le_trans (Nat.le_of_lt (hrank _ _ hsuper)) ih
  exact Nat.not_lt_of_le (hle habove) (hrank name parent hparent)

section Searches

variable {h : Hierarchy} {α : Type} {visit : String → Option α}

theorem find?_eq_findSome?_depthFirst (h : Hierarchy) (name : String)
    (visit : String → Option α) :
    h.find? name visit = (h.depthFirst [] [name]).findSome? visit := by
  rw [find?, preorder_eq_depthFirst]

theorem find?_eq_none_iff {name : String} :
    h.find? name visit = none ↔ ∀ x, h.IsAbove name x → visit x = none := by
  simp only [find?, List.findSome?_eq_none_iff, mem_preorder_iff]

theorem depthFirst_eq_walk (h : Hierarchy) (seen names : List String) :
    h.depthFirst seen names = h.walk seen names := by
  simpa [walk] using (h.walk_append seen names []).symm

/-- The first of some types has its turn before the others. -/
theorem depthFirst_cons (h : Hierarchy) (seen : List String) (name : String) (rest : List String) :
    h.depthFirst seen (name :: rest) =
      h.depthFirst seen [name] ++ h.depthFirst (h.depthFirst seen [name] ++ seen) rest := by
  by_cases hs : seen.contains name
  · simp only [depthFirst, dif_pos hs, List.nil_append]
  · simp only [depthFirst, dif_neg hs, List.append_nil]

theorem isAbove_of_mem_depthFirst {seen : List String} {name x : String}
    (hx : x ∈ h.depthFirst seen [name]) : h.IsAbove name x := by
  rw [depthFirst_eq_walk] at hx
  simpa using h.exists_isAbove_of_mem_walk hx

/-! ## Types that were seen -/

/-- Those of the types seen that can be met again have no answer, and neither has any type above
them. -/
def Spent (h : Hierarchy) (visit : String → Option α) (seen names : List String) : Prop :=
  ∀ x ∈ seen, (∃ name ∈ names, h.IsAbove name x) → h.find? x visit = none

theorem Spent.of_above {seen names names' : List String} (hspent : h.Spent visit seen names)
    (habove : ∀ name' ∈ names', ∃ name ∈ names, h.IsAbove name name') :
    h.Spent visit seen names' := by
  rintro x hx ⟨name', hname', hup⟩
  obtain ⟨name, hname, habove⟩ := habove name' hname'
  exact hspent x hx ⟨name, hname, habove.trans hup⟩

theorem Spent.tail {seen rest : List String} {name : String}
    (hspent : h.Spent visit seen (name :: rest)) : h.Spent visit seen rest :=
  hspent.of_above fun x hx => ⟨x, List.mem_cons_of_mem name hx, .refl⟩

/-- A type without answers above it leaves behind types that are spent. -/
theorem Spent.append {seen rest : List String} {name : String}
    (hspent : h.Spent visit seen rest) (hname : h.find? name visit = none) :
    h.Spent visit (h.depthFirst seen [name] ++ seen) rest := by
  intro x hx hup
  rcases List.mem_append.1 hx with hx | hx
  · have habove := isAbove_of_mem_depthFirst hx
    exact find?_eq_none_iff.2 fun y hy => find?_eq_none_iff.1 hname y (habove.trans hy)
  · exact hspent x hx hup

/-- Where a walk finds no answer, there is none: what it leaves out is spent. -/
theorem find?_eq_none_of_depthFirst {seen : List String} {name : String}
    (hspent : h.Spent visit seen [name])
    (hnone : (h.depthFirst seen [name]).findSome? visit = none) : h.find? name visit = none := by
  rw [depthFirst_eq_walk] at hnone
  -- a type above `name` is on the walk, or above one that was seen
  have hup : ∀ x, h.IsAbove name x → x ∈ h.walk seen [name] ∨ h.find? x visit = none := by
    intro x habove
    induction habove with
    | refl =>
      have hself : name ∈ h.walk seen [name] ∨ name ∈ seen :=
        h.mem_walk_of_mem_stack (List.mem_singleton_self name)
      rcases hself with hx | hx
      · exact .inl hx
      · exact .inr (hspent name hx ⟨name, List.mem_singleton_self name, .refl⟩)
    | @tail x y habove hy ih =>
      rcases ih with hx | hx
      · refine (h.mem_walk_of_mem_supertypes hx hy).imp_right fun hseen => ?_
        exact hspent y hseen ⟨name, List.mem_singleton_self name, habove.tail hy⟩
      · exact .inr (find?_eq_none_iff.2 fun z hz => find?_eq_none_iff.1 hx z (.head hy hz))
  refine find?_eq_none_iff.2 fun x habove => ?_
  rcases hup x habove with hx | hx
  · exact List.findSome?_eq_none_iff.1 hnone x hx
  · exact find?_eq_none_iff.1 hx x .refl

/-- A walk from a type above which there is no answer finds none, whatever it leaves out. -/
theorem findSome?_depthFirst_of_none (seen : List String) {name : String}
    (hname : h.find? name visit = none) : (h.depthFirst seen [name]).findSome? visit = none :=
  List.findSome?_eq_none_iff.2 fun x hx =>
    find?_eq_none_iff.1 hname x (isAbove_of_mem_depthFirst hx)

/-- Lists of types seen make no difference as far as they are spent. -/
theorem findSome?_depthFirst_congr (hacyclic : h.Acyclic) {seen seen' names : List String}
    (hspent : h.Spent visit seen names) (hspent' : h.Spent visit seen' names) :
    (h.depthFirst seen names).findSome? visit = (h.depthFirst seen' names).findSome? visit := by
  induction seen, names using depthFirst.induct h generalizing seen' with
  | case1 seen => rw [depthFirst, depthFirst]
  | case2 seen name rest hs ih =>
    have hname : h.find? name visit = none :=
      hspent name (by simpa using hs) ⟨name, List.mem_cons_self, .refl⟩
    rw [h.depthFirst_cons seen', List.findSome?_append, findSome?_depthFirst_of_none seen' hname,
      Option.none_or, ← ih hspent.tail (hspent'.tail.append hname), depthFirst, dif_pos hs]
  | case3 seen name rest hs met ih_above =>
    rename_i ih_rest
    have hmet : met = h.depthFirst seen [name] := by
      simp only [depthFirst, dif_neg hs, List.append_nil, met]
    rw [hmet] at ih_rest
    have hfront : (h.depthFirst seen [name]).findSome? visit
        = (h.depthFirst seen' [name]).findSome? visit := by
      by_cases hname : h.find? name visit = none
      · rw [findSome?_depthFirst_of_none seen hname, findSome?_depthFirst_of_none seen' hname]
      -- a type with an answer above it was not seen on either side
      have hs' : ¬ seen'.contains name := fun hs' =>
        hname (hspent' name (by simpa using hs') ⟨name, List.mem_cons_self, .refl⟩)
      have habove {seen : List String} (hspent : h.Spent visit seen (name :: rest)) :
          h.Spent visit (name :: seen) (h.supertypes name) := by
        rintro x hx ⟨parent, hparent, hup⟩
        rcases List.mem_cons.1 hx with rfl | hx
        · exact absurd hup (hacyclic hparent)
        · exact hspent x hx ⟨name, List.mem_cons_self, .head hparent hup⟩
      simp only [depthFirst, dif_neg hs, dif_neg hs', List.append_nil, List.findSome?_cons,
        ih_above (habove hspent) (habove hspent')]
    rw [h.depthFirst_cons seen, h.depthFirst_cons seen', List.findSome?_append,
      List.findSome?_append, hfront]
    cases hfind : (h.depthFirst seen' [name]).findSome? visit with
    | some answer => rfl
    | none =>
      have hname : h.find? name visit = none :=
        find?_eq_none_of_depthFirst (hspent'.of_above fun x hx => ⟨x, by simp_all, .refl⟩) hfind
      rw [ih_rest (hspent.tail.append hname) (hspent'.tail.append hname)]

/-- Types that were seen and are spent hide no answer: each type answers as in a search of its
own, and the first that does decides. -/
theorem findSome?_depthFirst (hacyclic : h.Acyclic) {seen names : List String}
    (hspent : h.Spent visit seen names) :
    (h.depthFirst seen names).findSome? visit = names.findSome? fun name => h.find? name visit := by
  induction names generalizing seen with
  | nil => rw [depthFirst, List.findSome?_nil, List.findSome?_nil]
  | cons name rest ih =>
    have hfront : (h.depthFirst seen [name]).findSome? visit = h.find? name visit := by
      rw [find?_eq_findSome?_depthFirst]
      refine findSome?_depthFirst_congr hacyclic (hspent.of_above fun x hx => ?_) (by simp [Spent])
      exact ⟨x, by simp_all, .refl⟩
    rw [h.depthFirst_cons, List.findSome?_append, List.findSome?_cons, hfront]
    cases hname : h.find? name visit with
    | some answer => rfl
    | none => rw [Option.none_or, ih (hspent.tail.append hname)]

/-- **Without cycles a search is the plain recursion**: a type is asked, and then each of its
supertypes is searched on its own, until there is an answer. -/
theorem Acyclic.find?_eq (hacyclic : h.Acyclic) (name : String) (visit : String → Option α) :
    h.find? name visit
      = (visit name).or ((h.supertypes name).findSome? fun parent => h.find? parent visit) := by
  have hspent : h.Spent visit [name] (h.supertypes name) := by
    rintro x hx ⟨parent, hparent, hup⟩
    obtain rfl := List.mem_singleton.1 hx
    exact absurd hup (hacyclic hparent)
  rw [← findSome?_depthFirst hacyclic hspent, find?_eq_findSome?_depthFirst, depthFirst,
    dif_neg (by simp)]
  simp only [depthFirst, List.append_nil, List.findSome?_cons]
  cases visit name <;> rfl

end Searches

end Hierarchy

namespace Renaming

/-! ## Members and their owners -/

/-- The entry that a table has for a member of an owner. -/
def entryAt? (table : Mapping.Compact) :
    MemberKind → (name descriptor owner : String) → Option String
  | .field, name, _, owner => table.fieldName? owner name
  | .method, name, descriptor, owner => table.methodName? owner name descriptor

/-- Constructors and class initialisers. -/
def IsInitializer (kind : MemberKind) (name : String) : Prop :=
  kind = .method ∧ (name = "<init>" ∨ name = "<clinit>")

/-- From a class without an entry of its own to its superclass. -/
def Passes (h : Hierarchy) (entry : String → Option String) (sub super : String) : Prop :=
  entry sub = none ∧ ∃ interfaces, h.parents[sub]? = some ⟨some super, interfaces⟩

section Owners

variable {table : Mapping.Compact} {h : Hierarchy} {kind : MemberKind} {name : String}

theorem newMemberName_byOwner_of_isInitializer (hname : IsInitializer kind name)
    (owner descriptor : String) :
    newMemberName (.byOwner table h) kind owner name descriptor = name := by
  obtain ⟨rfl, hname⟩ := hname
  have hspecial : Resolver.isSpecial name = true := by simpa [Resolver.isSpecial] using hname
  simp only [newMemberName, Resolver.byOwner, if_pos hspecial]

/-- Every other member is called by what a search for an entry finds. -/
theorem newMemberName_byOwner (hname : ¬ IsInitializer kind name) (owner descriptor : String) :
    newMemberName (.byOwner table h) kind owner name descriptor
      = (h.find? owner (entryAt? table kind name descriptor)).getD name := by
  cases kind with
  | field => rfl
  | method =>
    have hspecial : ¬ Resolver.isSpecial name = true := by
      simpa [Resolver.isSpecial, IsInitializer] using hname
    exact if_neg hspecial

end Owners

section Inheriting

variable {h : Hierarchy} (hacyclic : h.Acyclic) {entry : String → Option String}

include hacyclic

/-- A search from a class without an entry goes through the superclass and then the interfaces. -/
theorem find?_of_passes {sub super : String} {interfaces : List String}
    (hsub : h.parents[sub]? = some ⟨some super, interfaces⟩) (hnone : entry sub = none) :
    h.find? sub entry
      = (h.find? super entry).or (interfaces.findSome? fun i => h.find? i entry) := by
  have hsuper : h.supertypes sub = super :: interfaces := by
    simp [Hierarchy.supertypes, hsub, Parents.toList]
  rw [hacyclic.find?_eq, hnone, Option.none_or, hsuper, List.findSome?_cons]
  cases h.find? super entry <;> rfl

/-- What is found from a class is found from every class that inherits from it, as long as none in
between has an entry of its own. -/
theorem find?_of_inherits {sub ancestor new : String}
    (hchain : Relation.ReflTransGen (Passes h entry) sub ancestor)
    (hfind : h.find? ancestor entry = some new) : h.find? sub entry = some new := by
  induction hchain using Relation.ReflTransGen.head_induction_on with
  | refl => exact hfind
  | head hstep _ ih =>
    obtain ⟨hnone, interfaces, hsub⟩ := hstep
    rw [find?_of_passes hacyclic hsub hnone, ih, Option.some_or]

end Inheriting

/-- **Inherited members keep the name that the superclass gives them.**  In a hierarchy without
cycles, a class without an entry of its own for a member calls it as its superclass does, if the
search from there finds an entry; else as the first interface does from which a search finds one;
and only if no type above the class has an entry, the member keeps its name. So whatever is found
from a class holds for all that inherit from it without an entry on the way. Constructors and class
initialisers keep their names in any case. -/
theorem byOwner_inherits {h : Hierarchy} (hacyclic : h.Acyclic) (table : Mapping.Compact)
    (kind : MemberKind) (name descriptor : String) :
    (IsInitializer kind name → ∀ owner,
      newMemberName (.byOwner table h) kind owner name descriptor = name) ∧
    (¬ IsInitializer kind name →
      let entry := entryAt? table kind name descriptor
      let newName := fun owner => newMemberName (.byOwner table h) kind owner name descriptor
      (∀ sub super interfaces, h.parents[sub]? = some ⟨some super, interfaces⟩ →
        entry sub = none →
          (∀ new, h.find? super entry = some new → newName sub = new ∧ newName super = new) ∧
          (h.find? super entry = none →
            newName sub = (interfaces.findSome? fun i => h.find? i entry).getD name ∧
            ((interfaces.findSome? fun i => h.find? i entry) = none ↔
              ∀ owner, h.IsAbove sub owner → entry owner = none))) ∧
      ∀ sub ancestor new, Relation.ReflTransGen (Passes h entry) sub ancestor →
        h.find? ancestor entry = some new → newName sub = new ∧ newName ancestor = new) := by
  refine ⟨fun hname owner => newMemberName_byOwner_of_isInitializer hname owner descriptor,
    fun hname => ?_⟩
  simp only [newMemberName_byOwner hname]
  refine ⟨fun sub super interfaces hsub hnone => ?_, fun sub ancestor new hchain hfind => ?_⟩
  · have hfind := find?_of_passes hacyclic hsub hnone
    refine ⟨fun new hsuper => ?_, fun hsuper => ?_⟩
    · rw [hfind, hsuper]
      exact ⟨rfl, rfl⟩
    · rw [hsuper, Option.none_or] at hfind
      rw [← hfind]
      exact ⟨rfl, Hierarchy.find?_eq_none_iff⟩
  · rw [find?_of_inherits hacyclic hchain hfind, hfind]
    exact ⟨rfl, rfl⟩

/-! ## A small family -/

/-- The class `d` with its superclass `c` and the interfaces `i` and `j`; the second of them is also
an interface of `b`, the superclass of `c`. -/
def sampleFamilyTree : Hierarchy :=
  ((Hierarchy.empty.insert "b" ⟨some "java/lang/Object", ["j"]⟩).insert "c"
    ⟨some "b", []⟩).insert "d" ⟨some "c", ["i", "j"]⟩

/-- Calls the method `m` of `b` and of `i`, the field `f` of `i`, and the constructors of `i`. -/
def sampleEntries : Mapping.Compact :=
  .ofEntries [.method "b" "m" "()V" "ofClass", .method "i" "m" "()V" "ofInterface",
    .field "i" "f" "g", .method "i" "<init>" "()V" "made"]

theorem supertypes_sampleFamilyTree (name : String) :
    sampleFamilyTree.supertypes name =
      if name = "d" then ["c", "i", "j"] else if name = "c" then ["b"]
      else if name = "b" then ["java/lang/Object", "j"] else [] := by
  simp only [Hierarchy.supertypes, sampleFamilyTree, Hierarchy.insert, Hierarchy.empty,
    Std.HashMap.getElem?_insert, Std.HashMap.getElem?_empty, beq_iff_eq, eq_comm (a := name)]
  by_cases hd : "d" = name
  · simp [hd, Parents.toList]
  by_cases hc : "c" = name
  · simp [hd, hc, Parents.toList]
  by_cases hb : "b" = name
  · simp [hd, hc, hb, Parents.toList]
  · simp [hd, hc, hb]

theorem acyclic_sampleFamilyTree : sampleFamilyTree.Acyclic := by
  refine Hierarchy.acyclic_of_rank
    (fun name => if name = "d" then 3 else if name = "c" then 2 else if name = "b" then 1 else 0)
    fun name parent hparent => ?_
  rw [supertypes_sampleFamilyTree] at hparent
  grind

theorem preorder_sampleFamilyTree :
    sampleFamilyTree.preorder "c" = ["c", "b", "java/lang/Object", "j"]
      ∧ sampleFamilyTree.preorder "i" = ["i"] := by
  simp [Hierarchy.preorder, Hierarchy.walk, supertypes_sampleFamilyTree]

theorem entryAt?_sampleEntries (name owner : String) :
    entryAt? sampleEntries .method name "()V" owner =
        (if (owner, name) = ("i", "<init>") then some "made"
        else if (owner, name) = ("i", "m") then some "ofInterface"
        else if (owner, name) = ("b", "m") then some "ofClass" else none)
      ∧ entryAt? sampleEntries .field name "I" owner
        = if (owner, name) = ("i", "f") then some "g" else none := by
  have hinit : ' ' ∉ "<init>".toList := by decide
  have hm : ' ' ∉ "m".toList := by decide
  have hunit : ' ' ∉ "()V".toList := by decide
  constructor
  · simp only [entryAt?, sampleEntries, Mapping.Compact.ofEntries, List.foldl_cons, List.foldl_nil,
      Mapping.Compact.methodName?_insert _ hinit hunit, Mapping.Compact.methodName?_insert_field,
      Mapping.Compact.methodName?_insert _ hm hunit, Mapping.Compact.methodName?_empty,
      eq_comm (b := owner), eq_comm (b := name), Prod.mk.injEq, and_true]
  · simp only [entryAt?, Mapping.Compact.fieldName?, sampleEntries, Mapping.Compact.ofEntries,
      List.foldl_cons, List.foldl_nil, Mapping.Compact.insert, Mapping.Compact.empty,
      Std.HashMap.getElem?_insert, Std.HashMap.getElem?_empty, beq_iff_eq, Prod.mk.injEq,
      eq_comm (a := owner), eq_comm (a := name)]

theorem byOwner_inherits_sampleFamilyTree :
    sampleFamilyTree.Acyclic
      ∧ sampleFamilyTree.parents["d"]? = some ⟨some "c", ["i", "j"]⟩
      ∧ newMemberName (.byOwner sampleEntries sampleFamilyTree) .method "d" "m" "()V" = "ofClass"
      ∧ newMemberName (.byOwner sampleEntries sampleFamilyTree) .method "c" "m" "()V" = "ofClass"
      ∧ newMemberName (.byOwner sampleEntries sampleFamilyTree) .field "d" "f" "I" = "g" := by
  have hd : sampleFamilyTree.parents["d"]? = some ⟨some "c", ["i", "j"]⟩ := by
    simp [sampleFamilyTree, Hierarchy.insert]
  have hmethod := (byOwner_inherits acyclic_sampleFamilyTree sampleEntries .method "m" "()V").2
    (by simp [IsInitializer])
  have hfield := (byOwner_inherits acyclic_sampleFamilyTree sampleEntries .field "f" "I").2
    (by simp [IsInitializer])
  have hm : sampleFamilyTree.find? "c" (entryAt? sampleEntries .method "m" "()V")
      = some "ofClass" := by
    simp [Hierarchy.find?, preorder_sampleFamilyTree, entryAt?_sampleEntries]
  have hf : sampleFamilyTree.find? "c" (entryAt? sampleEntries .field "f" "I") = none := by
    simp [Hierarchy.find?, preorder_sampleFamilyTree, entryAt?_sampleEntries]
  have hi : sampleFamilyTree.find? "i" (entryAt? sampleEntries .field "f" "I") = some "g" := by
    simp [Hierarchy.find?, preorder_sampleFamilyTree, entryAt?_sampleEntries]
  obtain ⟨hsub, hsuper⟩ :=
    (hmethod.1 "d" "c" ["i", "j"] hd (by simp [entryAt?_sampleEntries])).1 "ofClass" hm
  obtain ⟨hown, -⟩ := (hfield.1 "d" "c" ["i", "j"] hd (by simp [entryAt?_sampleEntries])).2 hf
  refine ⟨acyclic_sampleFamilyTree, hd, hsub, hsuper, hown.trans ?_⟩
  simp [hi]

/-- An entry for a constructor that a search finds above a class does not name the constructor. -/
theorem not_inherits_constructor :
    ¬ ∀ (h : Hierarchy) (table : Mapping.Compact) (sub super : String) (interfaces : List String)
        (name descriptor : String),
      h.Acyclic → h.parents[sub]? = some ⟨some super, interfaces⟩ →
      table.methodName? sub name descriptor = none →
      (h.find? super fun owner => table.methodName? owner name descriptor) = none →
      (Resolver.byOwner table h).method sub name descriptor
        = (interfaces.findSome? fun i =>
            h.find? i fun owner => table.methodName? owner name descriptor).getD name := by
  intro hall
  have hd : sampleFamilyTree.parents["d"]? = some ⟨some "c", ["i", "j"]⟩ := by
    simp [sampleFamilyTree, Hierarchy.insert]
  have hentry (owner : String) : sampleEntries.methodName? owner "<init>" "()V"
      = if owner = "i" then some "made" else none := by
    simpa [entryAt?] using (entryAt?_sampleEntries "<init>" owner).1
  have h := hall sampleFamilyTree sampleEntries "d" "c" ["i", "j"] "<init>" "()V"
    acyclic_sampleFamilyTree hd (by simp [hentry])
    (by simp [Hierarchy.find?, preorder_sampleFamilyTree, hentry])
  simp [Hierarchy.find?, preorder_sampleFamilyTree, hentry, Resolver.byOwner,
    Resolver.isSpecial] at h

end Renaming

end Jarwright
