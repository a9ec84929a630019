import Jarwright.Proofs.Renaming.Composition
import Jarwright.Proofs.Renaming.Hierarchy

/-!
# The order of an archive

An archive is renamed by its own hierarchy, which is read before any class is renamed. So no class
depends on where its supertypes stand, or on the classes that are renamed before it.

* `Hierarchy.find?_congr`: a walk over a hierarchy asks for supertypes and for nothing else;
* `supertypes_perm`: if no two classes share a name, the hierarchy has the same supertypes whatever
  the order of the entries;
* `ArchiveRenamed.eq_filterMap`: what is stored in the place of an entry depends on the entry alone.

`renameByTables_perm` puts them together.
-/

namespace Jarwright

/-! ## Walks -/

namespace Hierarchy

variable {h k : Hierarchy} (hsuper : ∀ name, h.supertypes name = k.supertypes name)

include hsuper

theorem walk_congr (seen stack : List String) : h.walk seen stack = k.walk seen stack := by
  fun_induction walk h seen stack with
  | case1 seen => rw [walk]
  | case2 seen name rest hseen ih => rw [walk, dif_pos hseen, ih]
  | case3 seen name rest hseen ih => rw [walk, dif_neg hseen, ← hsuper, ih]

theorem find?_congr {α : Type} (start : String) (visit : String → Option α) :
    h.find? start visit = k.find? start visit := by
  rw [find?, find?, preorder, preorder, walk_congr hsuper]

end Hierarchy

/-- Names by owner depend on the supertypes alone. -/
theorem Resolver.byOwner_congr (table : Mapping.Compact) {h k : Hierarchy}
    (hsuper : ∀ name, h.supertypes name = k.supertypes name) :
    Resolver.byOwner table h = Resolver.byOwner table k := by
  have hfind {α : Type} (start : String) (visit : String → Option α) :
      h.find? start visit = k.find? start visit := Hierarchy.find?_congr hsuper start visit
  simp only [Resolver.byOwner, hfind]

namespace Renaming

open Archive ClassFile

/-! ## Hierarchies -/

/-- The class in an entry has this name. -/
def DeclaredBy (e : Entry) (name : String) : Prop :=
  ∃ c, ClassFile.parse e.content = .ok c ∧ c.name = .ok name

/-- No two different entries hold classes of one name. -/
def DistinctClasses (entries : List Entry) : Prop :=
  ∀ e ∈ classEntries entries, ∀ e' ∈ classEntries entries, ∀ name,
    DeclaredBy e name → DeclaredBy e' name → e = e'

/-- If no two headers share a name, the order in which they are added has no effect. -/
theorem getElem?_foldl_insertHeader {headers : List Header} {k : Hierarchy} {name : String}
    {p : Parents} (hsame : ∀ h ∈ headers, ∀ h' ∈ headers, h.name = h'.name → h = h') :
    (headers.foldl Hierarchy.insertHeader k).parents[name]? = some p
      ↔ (∃ h ∈ headers, h.name = name ∧ ⟨h.superName, h.interfaces⟩ = p)
        ∨ (∀ h ∈ headers, h.name ≠ name) ∧ k.parents[name]? = some p := by
  induction headers generalizing k with
  | nil => simp
  | cons h rest ih =>
    have hrest := ih (k := k.insertHeader h) fun a ha b hb =>
      hsame a (List.mem_cons_of_mem _ ha) b (List.mem_cons_of_mem _ hb)
    rw [List.foldl_cons, hrest, List.exists_mem_cons_iff, List.forall_mem_cons,
      Hierarchy.insertHeader, Hierarchy.insert, Std.HashMap.getElem?_insert]
    by_cases hname : h.name = name
    · simp only [hname, beq_self_eq_true, if_true, Option.some.injEq, true_and, ne_eq,
        not_true_eq_false, false_and, or_false]
      constructor
      · rintro (hmem | ⟨-, hp⟩)
        · exact .inr hmem
        · exact .inl hp
      · rintro (hp | hmem)
        · by_cases hno : ∀ h' ∈ rest, h'.name ≠ name
          · exact .inr ⟨hno, hp⟩
          · -- a later header of this name is the same one
            push Not at hno
            obtain ⟨h', hh', hname'⟩ := hno
            obtain rfl := hsame h List.mem_cons_self h' (List.mem_cons_of_mem _ hh')
              (hname.trans hname'.symm)
            exact .inl ⟨h, hh', hname, hp⟩
        · exact .inl hmem
    · simp [hname]

/-- What the hierarchy of an archive says about a type is what the class of this name says. -/
theorem getElem?_hierarchyOf {entries : List Entry} {k : Hierarchy}
    (hk : hierarchyOf entries = .ok k) (hdistinct : DistinctClasses entries)
    (hparse : ∀ e ∈ classEntries entries, ∃ c, ClassFile.parse e.content = .ok c) {name : String}
    {p : Parents} :
    k.parents[name]? = some p ↔ ∃ e ∈ classEntries entries, ∃ h, headerOf e = .ok h
      ∧ h.name = name ∧ ⟨h.superName, h.interfaces⟩ = p := by
  obtain ⟨headers, hheaders, rfl⟩ := hierarchyOf_eq_ok.1 hk
  have hdeclared {e : Entry} (he : e ∈ classEntries entries) {h : Header}
      (hh : headerOf e = .ok h) : DeclaredBy e h.name := by
    obtain ⟨c, hc⟩ := hparse e he
    exact ⟨c, hc, (header_eq_ok.1 ((headerOf_iff hc).1 hh)).2.1⟩
  have hsame : ∀ h ∈ headers, ∀ h' ∈ headers, h.name = h'.name → h = h' := by
    intro h hh h' hh' hname
    obtain ⟨e, he, hheader⟩ := (mem_mapM_iff hheaders).1 hh
    obtain ⟨e', he', hheader'⟩ := (mem_mapM_iff hheaders).1 hh'
    obtain rfl := hdistinct e he e' he' h.name (hdeclared he hheader)
      (hname ▸ hdeclared he' hheader')
    exact Except.ok.inj (hheader.symm.trans hheader')
  rw [getElem?_foldl_insertHeader hsame]
  constructor
  · rintro (⟨h, hh, hname, hp⟩ | ⟨-, hempty⟩)
    · obtain ⟨e, he, hheader⟩ := (mem_mapM_iff hheaders).1 hh
      exact ⟨e, he, h, hheader, hname, hp⟩
    · simp [Hierarchy.empty] at hempty
  · rintro ⟨e, he, h, hheader, hname, hp⟩
    exact .inl ⟨h, (mem_mapM_iff hheaders).2 ⟨e, he, hheader⟩, hname, hp⟩

section Permuted

variable {entries entries' : List Entry} (hperm : entries.Perm entries')

include hperm

theorem mem_classEntries_perm {e : Entry} :
    e ∈ classEntries entries ↔ e ∈ classEntries entries' :=
  (hperm.filter _).mem_iff

theorem DistinctClasses.perm (h : DistinctClasses entries) : DistinctClasses entries' := by
  intro e he e' he'
  rw [← mem_classEntries_perm hperm] at he he'
  exact h e he e' he'

theorem exists_hierarchyOf_perm :
    (∃ k, hierarchyOf entries = .ok k) → ∃ k', hierarchyOf entries' = .ok k' := by
  rintro ⟨k, hk⟩
  obtain ⟨headers, hheaders, -⟩ := hierarchyOf_eq_ok.1 hk
  have hall := exists_mapM_eq_ok.1 ⟨_, hheaders⟩
  obtain ⟨headers', hheaders'⟩ := exists_mapM_eq_ok.2 fun e he =>
    hall e ((mem_classEntries_perm hperm).2 he)
  exact ⟨_, hierarchyOf_eq_ok.2 ⟨headers', hheaders', rfl⟩⟩

/-- The supertypes of a type do not depend on the order of the entries. -/
theorem supertypes_perm {k k' : Hierarchy} (hk : hierarchyOf entries = .ok k)
    (hk' : hierarchyOf entries' = .ok k') (hdistinct : DistinctClasses entries)
    (hparse : ∀ e ∈ classEntries entries, ∃ c, ClassFile.parse e.content = .ok c)
    (name : String) : k.supertypes name = k'.supertypes name := by
  have hparse' : ∀ e ∈ classEntries entries', ∃ c, ClassFile.parse e.content = .ok c :=
    fun e he => hparse e ((mem_classEntries_perm hperm).2 he)
  have hlookup : k.parents[name]? = k'.parents[name]? := by
    ext p
    rw [getElem?_hierarchyOf hk hdistinct hparse,
      getElem?_hierarchyOf hk' (hdistinct.perm hperm) hparse']
    simp only [mem_classEntries_perm hperm]
  rw [Hierarchy.supertypes, Hierarchy.supertypes, hlookup]

end Permuted

/-! ## Entries -/

/-- What a renaming stores in the place of an entry, if anything. -/
def stored (r : Resolver) (e : Entry) : Option Entry := (renameEntry r e).toOption.join

/-- The counts of the roles of some entries. -/
def countRoles (entries : List Entry) : Report :=
  entries.foldr (fun e report => report.count (roleOf e)) ⟨0, 0, 0, 0⟩

theorem EntryRenamed.stored_eq {r : Resolver} {e : Entry} {role : Role} {new : Option Entry}
    (h : EntryRenamed r e role new) : role = roleOf e ∧ new = stored r e := by
  obtain ⟨hrole, hrename⟩ := entryRenamed_iff.1 h
  refine ⟨hrole, ?_⟩
  rw [stored, hrename]
  rfl

/-- Every entry is renamed by itself. -/
theorem ArchiveRenamed.eq_filterMap {r : Resolver} {entries out : List Entry} {report : Report}
    (h : ArchiveRenamed r entries out report) :
    out = entries.filterMap (stored r) ∧ report = countRoles entries := by
  induction h with
  | nil => exact ⟨rfl, rfl⟩
  | cons hentry _ ih =>
    obtain ⟨rfl, rfl⟩ := hentry.stored_eq
    obtain ⟨rfl, rfl⟩ := ih
    refine ⟨?_, rfl⟩
    rw [List.filterMap_cons]
    split <;> simp_all

theorem ArchiveRenamed.entryRenamed {r : Resolver} {entries out : List Entry} {report : Report}
    (h : ArchiveRenamed r entries out report) :
    ∀ e ∈ entries, EntryRenamed r e (roleOf e) (stored r e) := by
  induction h with
  | nil => exact fun _ he => absurd he List.not_mem_nil
  | cons hentry _ ih =>
    obtain ⟨rfl, rfl⟩ := hentry.stored_eq
    exact List.forall_mem_cons.2 ⟨hentry, ih⟩

theorem countRoles_perm {entries entries' : List Entry} (hperm : entries.Perm entries') :
    countRoles entries = countRoles entries' := by
  refine hperm.foldr_eq' (fun a _ b _ report => ?_) _
  cases roleOf a <;> cases roleOf b <;> rfl

/-- One resolver renames an archive in any order, or in none. -/
theorem ArchiveRenamed.perm {r : Resolver} {entries entries' out : List Entry} {report : Report}
    (h : ArchiveRenamed r entries out report) (hperm : entries.Perm entries') :
    ArchiveRenamed r entries' (entries'.filterMap (stored r)) report := by
  have hclasses := exists_archiveRenamed.1 ⟨_, _, h⟩
  obtain ⟨out', report', h'⟩ := exists_archiveRenamed.2 fun e he => hclasses e (hperm.mem_iff.2 he)
  obtain ⟨-, hreport⟩ := h.eq_filterMap
  obtain ⟨hout', hreport'⟩ := h'.eq_filterMap
  rwa [← hout', hreport, countRoles_perm hperm, ← hreport']

theorem transform_perm {r : Resolver} {entries entries' out : List Entry} {report : Report}
    (h : transform r entries = .ok (out, report)) (hperm : entries.Perm entries') :
    transform r entries' = .ok (entries'.filterMap (stored r), report) := by
  obtain ⟨hrenamed, hnodup⟩ := transform_eq_ok.1 h
  refine transform_eq_ok.2 ⟨hrenamed.perm hperm, ?_⟩
  obtain ⟨rfl, -⟩ := hrenamed.eq_filterMap
  exact (((hperm.filterMap _).map _).nodup_iff).1 hnodup

/-! ## Archives -/

theorem renameByTables_eq_ok {table : Mapping.Compact} {fields methods : Mapping.Csv}
    {entries out : List Entry} {report : Report} :
    renameByTables table fields methods entries = .ok (out, report)
      ↔ ∃ k, hierarchyOf entries = .ok k
        ∧ transform (standardResolver table fields methods k) entries = .ok (out, report) := by
  rw [renameByTables, except_bind_eq_ok]

/-- If no two entries hold classes of one name, what is renamed is renamed in any order, with the
same supertypes and to the same entries. -/
theorem renameByTables_of_perm {table : Mapping.Compact} {fields methods : Mapping.Csv}
    {entries entries' : List Entry} (hperm : entries.Perm entries')
    (hdistinct : DistinctClasses entries) {out : List Entry} {report : Report}
    (h : renameByTables table fields methods entries = .ok (out, report)) :
    ∃ k k', hierarchyOf entries = .ok k ∧ hierarchyOf entries' = .ok k'
      ∧ (∀ name, k.supertypes name = k'.supertypes name)
      ∧ ArchiveRenamed (standardResolver table fields methods k) entries out report
      ∧ renameByTables table fields methods entries' = .ok
        (entries'.filterMap (stored (standardResolver table fields methods k)), report) := by
  obtain ⟨k, hk, htransform⟩ := renameByTables_eq_ok.1 h
  obtain ⟨k', hk'⟩ := exists_hierarchyOf_perm hperm ⟨k, hk⟩
  have hrenamed := (transform_eq_ok.1 htransform).1
  have hsuper := supertypes_perm hperm hk hk' hdistinct hrenamed.exists_parse
  refine ⟨k, k', hk, hk', hsuper, hrenamed, renameByTables_eq_ok.2 ⟨k', hk', ?_⟩⟩
  have hresolver : standardResolver table fields methods k'
      = standardResolver table fields methods k := by
    rw [standardResolver, standardResolver, Resolver.byOwner_congr table hsuper]
  rw [hresolver]
  exact transform_perm htransform hperm

/-- **The order of the entries has no effect.**  If no two entries hold classes of one name, an
archive is renamed exactly if any permutation of it is. Both then have the same supertypes, and what
is stored in the place of an entry depends on the entry alone; so the new entries come in the order
of the old ones. -/
theorem renameByTables_perm (table : Mapping.Compact) (fields methods : Mapping.Csv)
    {entries entries' : List Entry} (hperm : entries.Perm entries')
    (hdistinct : DistinctClasses entries) :
    ((∃ result, renameByTables table fields methods entries = .ok result)
      ↔ ∃ result, renameByTables table fields methods entries' = .ok result)
    ∧ ∀ out report, renameByTables table fields methods entries = .ok (out, report) →
      ∃ k k', hierarchyOf entries = .ok k ∧ hierarchyOf entries' = .ok k'
        ∧ (∀ name, k.supertypes name = k'.supertypes name)
        ∧ ∃ put : Entry → Option Entry,
          (∀ e ∈ entries,
            EntryRenamed (standardResolver table fields methods k) e (roleOf e) (put e))
          ∧ out = entries.filterMap put
          ∧ renameByTables table fields methods entries'
            = .ok (entries'.filterMap put, report) := by
  refine ⟨⟨?_, ?_⟩, fun out report h => ?_⟩
  · rintro ⟨_, h⟩
    obtain ⟨_, _, -, -, -, -, h'⟩ := renameByTables_of_perm hperm hdistinct h
    exact ⟨_, h'⟩
  · rintro ⟨_, h⟩
    obtain ⟨_, _, -, -, -, -, h'⟩ := renameByTables_of_perm hperm.symm (hdistinct.perm hperm) h
    exact ⟨_, h'⟩
  · obtain ⟨k, k', hk, hk', hsuper, hrenamed, h'⟩ := renameByTables_of_perm hperm hdistinct h
    exact ⟨k, k', hk, hk', hsuper, _, hrenamed.entryRenamed, hrenamed.eq_filterMap.1, h'⟩

/-! ## A class before and behind its superclass -/

/-- The class `c` below the class `a`, which mentions the field `f` that it inherits. -/
def sampleHeir : Bytes :=
  [0xca, 0xfe, 0xba, 0xbe, 0, 0, 0, 52, 0, 9,
    1, 0, 1, 99, 7, 0, 1, 1, 0, 1, 97, 7, 0, 3, 1, 0, 1, 102, 1, 0, 3, 76, 97, 59,
    12, 0, 5, 0, 6, 9, 0, 2, 0, 7,
    0, 32, 0, 2, 0, 4, 0, 0, 0, 0, 0, 0, 0, 0]

/-- The class with the new names of its superclass and of the field. -/
def renamedHeir : RenamedClass where
  oldName := "c"
  name := "c"
  bytes :=
    [0xca, 0xfe, 0xba, 0xbe, 0, 0, 0, 52, 0, 13,
      1, 0, 1, 99, 7, 0, 1, 1, 0, 1, 97, 7, 0, 9, 1, 0, 1, 102, 1, 0, 3, 76, 97, 59,
      12, 0, 5, 0, 6, 9, 0, 2, 0, 12, 1, 0, 1, 98, 1, 0, 1, 103, 1, 0, 3, 76, 98, 59,
      12, 0, 10, 0, 11,
      0, 32, 0, 2, 0, 4, 0, 0, 0, 0, 0, 0, 0, 0]

/-- A class in front of its superclass. -/
def sampleHeirs : List Entry := [.file "c.class" sampleHeir, .file "a.class" sampleClass]

/-- The two classes with their new names. -/
def renamedHeirs : List Entry :=
  [.file "c.class" renamedHeir.bytes, .file "b.class" renamedSample.bytes]

/-- What the table by owner does where `c` inherits from `a`, without the table. -/
def heirResolver : Resolver where
  type name := if name = "a" then "b" else name
  field owner name _ := if (owner = "a" ∨ owner = "c") ∧ name = "f" then "g" else name
  method owner name descriptor :=
    if Resolver.isSpecial name then name
    else if (owner = "a" ∨ owner = "c") ∧ name = "m" ∧ descriptor = "()V" then "n" else name

/-- A question put to `c` goes on to `a`, and no other one goes on. -/
theorem find?_heir {k : Hierarchy} (hheir : k.supertypes "c" = ["a"])
    (hother : ∀ n, n ≠ "c" → k.supertypes n = []) {α : Type} (start : String)
    (visit : String → Option α) :
    k.find? start visit = (visit start).or (if start = "c" then visit "a" else none) := by
  have ha : k.supertypes "a" = [] := hother "a" (by decide)
  by_cases hstart : start = "c"
  · have hwalk : k.preorder "c" = ["c", "a"] := by
      simp [Hierarchy.preorder, Hierarchy.walk, hheir, ha]
    rw [hstart, Hierarchy.find?, hwalk, List.findSome?_cons, List.findSome?_singleton, if_pos rfl]
    cases visit "c" <;> rfl
  · have hwalk : k.preorder start = [start] := by
      simp [Hierarchy.preorder, Hierarchy.walk, hother start hstart]
    rw [Hierarchy.find?, hwalk, List.findSome?_singleton, if_neg hstart, Option.or_none]

theorem standardResolver_heir {k : Hierarchy} (hheir : k.supertypes "c" = ["a"])
    (hother : ∀ n, n ≠ "c" → k.supertypes n = []) :
    standardResolver sampleTable .empty .empty k = heirResolver := by
  have htype (name : String) :
      sampleTable.typeName? name = if name = "a" then some "b" else none := getElem?_single ..
  have hfield (owner name : String) : sampleTable.fieldName? owner name
      = if (owner, name) = ("a", "f") then some "g" else none := getElem?_single ..
  have hempty (name : String) : Mapping.Csv.empty.get? name = none := by
    simp [Mapping.Csv.get?, Mapping.Csv.empty]
  simp only [standardResolver, Resolver.compose, Resolver.byName, Resolver.byOwner, heirResolver,
    hempty, Option.getD_none, ite_self, htype, hfield, methodName?_sampleTable,
    find?_heir hheir hother, Prod.mk.injEq]
  congr 1
  · funext name
    by_cases hname : name = "a" <;> simp [hname]
  · funext owner name _
    by_cases ha : owner = "a" <;> by_cases hc : owner = "c" <;> by_cases hname : name = "f" <;>
      simp_all
  · funext owner name descriptor
    by_cases ha : owner = "a" <;> by_cases hc : owner = "c" <;>
      by_cases hname : name = "m" <;> by_cases hdesc : descriptor = "()V" <;> simp_all

set_option maxRecDepth 10000 in
theorem transform_sampleHeirs :
    transform heirResolver sampleHeirs = .ok (renamedHeirs, ⟨2, 0, 0, 0⟩) := by
  decide +kernel

theorem hierarchyOf_sampleHeirs : ∃ k, hierarchyOf sampleHeirs = .ok k
    ∧ k.supertypes "c" = ["a"] ∧ ∀ n, n ≠ "c" → k.supertypes n = [] := by
  have hheaders : (classEntries sampleHeirs).mapM headerOf
      = .ok [⟨32, "c", some "a", []⟩, ⟨32, "a", none, []⟩] := by decide +kernel
  refine ⟨_, hierarchyOf_eq_ok.2 ⟨_, hheaders, rfl⟩, ?_, fun n hn => ?_⟩
  · simp [Hierarchy.supertypes, Hierarchy.insertHeader, Hierarchy.insert,
      Std.HashMap.getElem_insert, Parents.toList]
  · have hc : ("c" == n) = false := beq_false_of_ne hn.symm
    by_cases ha : "a" = n
    · simp [Hierarchy.supertypes, Hierarchy.insertHeader, Hierarchy.insert, Parents.toList, ← ha]
    · simp [Hierarchy.supertypes, Hierarchy.insertHeader, Hierarchy.insert, Hierarchy.empty,
        hc, beq_false_of_ne ha]

/-- The name of a class that is renamed is the one it declares. -/
theorem DeclaredBy.eq_oldName {e : Entry} {name : String} (h : DeclaredBy e name) {r : Resolver}
    {out : RenamedClass} (hrename : rename r e.content = .ok out) : name = out.oldName := by
  obtain ⟨c, hparse, hname⟩ := h
  obtain ⟨c', _, hparse', hname', -⟩ := rename_spec hrename
  obtain rfl := Except.ok.inj (hparse'.symm.trans hparse)
  exact Except.ok.inj (hname.symm.trans hname')

set_option maxRecDepth 10000 in
theorem distinctClasses_sampleHeirs : DistinctClasses sampleHeirs := by
  have hclasses : classEntries sampleHeirs = sampleHeirs := by decide +kernel
  have hheir : rename heirResolver sampleHeir = .ok renamedHeir := by decide +kernel
  have hsample : rename heirResolver sampleClass = .ok renamedSample := by decide +kernel
  have hname : ∀ e ∈ sampleHeirs, ∀ name, DeclaredBy e name → e.name = name ++ ".class" := by
    intro e he name hdeclared
    rcases List.mem_pair.1 he with rfl | rfl
    · rw [hdeclared.eq_oldName hheir]
      rfl
    · rw [hdeclared.eq_oldName hsample]
      rfl
  rw [DistinctClasses, hclasses]
  intro e he e' he' name h h'
  have heq : e.name = e'.name := (hname e he name h).trans (hname e' he' name h').symm
  rcases List.mem_pair.1 he with rfl | rfl <;> rcases List.mem_pair.1 he' with rfl | rfl
  · rfl
  · exact absurd heq (by decide)
  · exact absurd heq (by decide)
  · rfl

theorem renameByTables_perm_sampleHeirs :
    sampleHeirs.Perm sampleHeirs.reverse ∧ DistinctClasses sampleHeirs
      ∧ renameByTables sampleTable .empty .empty sampleHeirs = .ok (renamedHeirs, ⟨2, 0, 0, 0⟩)
      ∧ renameByTables sampleTable .empty .empty sampleHeirs.reverse
        = .ok (renamedHeirs.reverse, ⟨2, 0, 0, 0⟩) := by
  have hperm : sampleHeirs.Perm sampleHeirs.reverse := sampleHeirs.reverse_perm.symm
  obtain ⟨k, hk, hheir, hother⟩ := hierarchyOf_sampleHeirs
  have hrename : renameByTables sampleTable .empty .empty sampleHeirs
      = .ok (renamedHeirs, ⟨2, 0, 0, 0⟩) :=
    renameByTables_eq_ok.2 ⟨k, hk, standardResolver_heir hheir hother ▸ transform_sampleHeirs⟩
  obtain ⟨-, -, -, -, -, put, -, hout, hreverse⟩ :=
    (renameByTables_perm _ _ _ hperm distinctClasses_sampleHeirs).2 _ _ hrename
  rw [List.filterMap_reverse, ← hout] at hreverse
  exact ⟨hperm, distinctClasses_sampleHeirs, hrename, hreverse⟩

end Renaming

end Jarwright
