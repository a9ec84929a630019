import Mathlib.Data.Set.Function
import Std.Data.HashMap.Lemmas
import Jarwright.Proofs.Renaming.Archive
import Jarwright.Proofs.Renaming.Header

/-!
# What a renaming makes of the hierarchy of an archive

The hierarchy is read from the headers of the classes, in order, and a later class takes the place
of an earlier one of its name. A renaming edits the classes and stores them elsewhere.

* `ArchiveRenamed.classes`: the classes of the new archive are those of the old one, in order;
* `HierarchyRenamed r k k'` relates two hierarchies type by type;
* `HierarchyRenamed.insertHeader` is the step for one class, `HierarchyRenamed.foldl` the run over
  all of them. Both need that no two names of classes become one: otherwise a class would take the
  place of another one that had a name of its own.

`transform_hierarchy` is the result on whole archives.
-/

namespace Jarwright.Renaming

open Archive ClassFile

/-! ## Entries -/

/-- The header of an entry is that of the class file it holds. -/
theorem headerOf_iff {e : Entry} {c : ClassFile} (hparse : ClassFile.parse e.content = .ok c)
    {h : Header} : headerOf e = .ok h ↔ c.header = .ok h := by
  rw [← Header.parse_iff hparse, headerOf]
  cases Header.parse e.content <;> simp

/-- An entry that holds a class, and the one that is stored in its place. -/
def ClassEntryRenamed (r : Resolver) (e e' : Entry) : Prop :=
  ∃ c, rename r e.content = .ok c ∧ e'.content = c.bytes

namespace ClassEntryRenamed

variable {r : Resolver} {e e' : Entry} (he : ClassEntryRenamed r e e')

include he

theorem header {h : Header} (hh : headerOf e = .ok h) :
    ∃ h', headerOf e' = .ok h' ∧ HeaderRenamed r h h' := by
  obtain ⟨out, hrename, hcontent⟩ := he
  obtain ⟨c, c', hparse, -, hparse', -, hc⟩ := rename_spec hrename
  obtain ⟨h', hh', hrenamed⟩ := hc.header rfl ((headerOf_iff hparse).1 hh)
  exact ⟨h', (headerOf_iff (hcontent ▸ hparse')).2 hh', hrenamed⟩

theorem exists_header {h' : Header} (hh : headerOf e' = .ok h') : ∃ h, headerOf e = .ok h := by
  obtain ⟨out, hrename, hcontent⟩ := he
  obtain ⟨c, c', hparse, -, hparse', -, hc⟩ := rename_spec hrename
  obtain ⟨h, hh⟩ := hc.exists_header rfl ((headerOf_iff (hcontent ▸ hparse')).1 hh)
  exact ⟨h, (headerOf_iff hparse).2 hh⟩

end ClassEntryRenamed

/-- The name of a class file is no directory. -/
theorem IsClass.not_isDirectory {e : Entry} (h : IsClass e.name) : e.isDirectory = false := by
  obtain ⟨stem, hstem⟩ := h
  have hlast : e.name.toList.getLast? = some 's' := by
    rw [hstem, String.toList_append, List.getLast?_append]
    rfl
  rw [Entry.isDirectory, Entry.isDirectoryName, hlast]
  rfl

theorem classEntries_cons_of_isClass {e : Entry} {entries : List Entry} (h : IsClass e.name) :
    classEntries (e :: entries) = e :: classEntries entries := by
  rw [classEntries, List.filter_cons_of_pos]
  · rfl
  · simp [h.not_isDirectory, isClassName_iff.2 h]

theorem classEntries_cons_of_not_isClass {e : Entry} {entries : List Entry}
    (h : e.isDirectory = true ∨ ¬ IsClass e.name) :
    classEntries (e :: entries) = classEntries entries := by
  rw [classEntries, List.filter_cons_of_neg]
  · rfl
  · rw [← isClassName_iff] at h
    rcases h with h | h <;> simp [h]

/-- A class is stored under the name of a class. -/
theorem StoredAs.isClass {entry name : String} {c : RenamedClass} (h : StoredAs entry c name)
    (hentry : IsClass entry) : IsClass name := by
  cases h with
  | renamed _ _ => exact ⟨_, rfl⟩
  | kept _ => exact hentry

/-- The classes of the new archive are those of the old one, in order. -/
theorem ArchiveRenamed.classes {r : Resolver} {entries out : List Entry} {report : Report}
    (h : ArchiveRenamed r entries out report) :
    List.Forall₂ (ClassEntryRenamed r) (classEntries entries) (classEntries out) := by
  induction h with
  | nil => exact .nil
  | cons hentry _ ih =>
    cases hentry with
    | directory hdir =>
      rw [classEntries_cons_of_not_isClass (.inl hdir)]
      simpa [classEntries_cons_of_not_isClass (.inl hdir)] using ih
    | signature _ hsig =>
      rw [classEntries_cons_of_not_isClass (.inr hsig.not_isClass)]
      exact ih
    | resource _ _ hclass =>
      rw [classEntries_cons_of_not_isClass (.inr hclass)]
      simpa [classEntries_cons_of_not_isClass (.inr hclass)] using ih
    | @classFile c name _ hclass hrename hstored =>
      have hname : IsClass (Entry.file name c.bytes).name := hstored.isClass hclass
      rw [classEntries_cons_of_isClass hclass]
      simpa [classEntries_cons_of_isClass hname] using ⟨⟨c, hrename, rfl⟩, ih⟩

/-! ## Hierarchies -/

/-- The types of a hierarchy are those that were added. -/
theorem mem_foldl_insertHeader {headers : List Header} {k : Hierarchy} {name : String} :
    name ∈ (headers.foldl Hierarchy.insertHeader k).parents
      ↔ name ∈ k.parents ∨ ∃ h ∈ headers, h.name = name := by
  induction headers generalizing k with
  | nil => simp
  | cons h rest ih =>
    rw [List.foldl_cons, ih, List.exists_mem_cons_iff, Hierarchy.insertHeader, Hierarchy.insert,
      Std.HashMap.mem_insert, beq_iff_eq]
    tauto

/-- A hierarchy before and after: each type has its new name, with the new names of its superclass
and its interfaces, and there are no further types. -/
structure HierarchyRenamed (r : Resolver) (k k' : Hierarchy) : Prop where
  size : k'.size = k.size
  types : ∀ (n : String) (p : Parents), k.parents[n]? = some p →
    ∃ n' p', ClassName.map r.type n = .ok n' ∧ renameParents r p = .ok p'
      ∧ k'.parents[n']? = some p'
  onto : ∀ n' ∈ k'.parents, ∃ n ∈ k.parents, ClassName.map r.type n = .ok n'

namespace HierarchyRenamed

variable {r : Resolver} {k k' : Hierarchy}

theorem empty (r : Resolver) : HierarchyRenamed r .empty .empty where
  size := rfl
  types n p h := by simp [Hierarchy.empty] at h
  onto n' h := by simp [Hierarchy.empty] at h

/-- The supertypes of a renamed type are the renamed supertypes, in order. -/
theorem supertypes (hk : HierarchyRenamed r k k') {n : String} (hn : n ∈ k.parents) :
    ∃ n', ClassName.map r.type n = .ok n' ∧ n' ∈ k'.parents
      ∧ (k.supertypes n).mapM (ClassName.map r.type) = .ok (k'.supertypes n') := by
  obtain ⟨p, hp⟩ := Option.isSome_iff_exists.1 (Std.HashMap.mem_iff_isSome_getElem?.1 hn)
  obtain ⟨n', p', hmap, hparents, hp'⟩ := hk.types n p hp
  refine ⟨n', hmap, Std.HashMap.mem_iff_isSome_getElem?.2 (by simp [hp']), ?_⟩
  simp only [Hierarchy.supertypes, hp, hp']
  exact mapM_toList_of_renameParents hparents

section Insert

variable {names : Set String} (hinj : names.InjOn (ClassName.map r.type))

include hinj

/-- A class that is added takes the place of another one after the renaming only if it did so
before. -/
theorem insertHeader (hk : HierarchyRenamed r k k') (hnames : ∀ n ∈ k.parents, n ∈ names)
    {h h' : Header} (hh : HeaderRenamed r h h') (hname : h.name ∈ names) :
    HierarchyRenamed r (k.insertHeader h) (k'.insertHeader h') := by
  -- only the old name has the new one
  have hunique {n : String} (hn : n ∈ k.parents) (hmap : ClassName.map r.type n = .ok h'.name) :
      n = h.name := hinj (hnames n hn) hname (hmap.trans hh.name.symm)
  have hmem : h'.name ∈ k'.parents ↔ h.name ∈ k.parents := by
    constructor
    · intro hold
      obtain ⟨n, hn, hmap⟩ := hk.onto _ hold
      exact hunique hn hmap ▸ hn
    · intro hold
      obtain ⟨n', hmap, hn', -⟩ := hk.supertypes hold
      obtain rfl : n' = h'.name := Except.ok.inj (hmap.symm.trans hh.name)
      exact hn'
  refine ⟨?_, fun n p hp => ?_, fun n' hn' => ?_⟩
  · simp only [Hierarchy.size, Hierarchy.insertHeader, Hierarchy.insert, Std.HashMap.size_insert,
      hmem]
    exact if_congr Iff.rfl hk.size (congrArg (· + 1) hk.size)
  · simp only [Hierarchy.insertHeader, Hierarchy.insert, Std.HashMap.getElem?_insert,
      beq_iff_eq] at hp ⊢
    split at hp
    · rename_i heq
      obtain rfl := heq
      obtain rfl := Option.some.inj hp
      exact ⟨h'.name, _, hh.name, hh.parents, if_pos rfl⟩
    · rename_i hne
      obtain ⟨n', p', hmap, hparents, hp'⟩ := hk.types n p hp
      have hn : n ∈ k.parents := Std.HashMap.mem_iff_isSome_getElem?.2 (by simp [hp])
      have hne' : h'.name ≠ n' := by
        rintro rfl
        exact hne (hunique hn hmap).symm
      exact ⟨n', p', hmap, hparents, (if_neg hne').trans hp'⟩
  · simp only [Hierarchy.insertHeader, Hierarchy.insert, Std.HashMap.mem_insert,
      beq_iff_eq] at hn' ⊢
    rcases hn' with rfl | hn'
    · exact ⟨h.name, .inl rfl, hh.name⟩
    · obtain ⟨n, hn, hmap⟩ := hk.onto n' hn'
      exact ⟨n, .inr hn, hmap⟩

/-- Adding the classes of an archive one after the other. -/
theorem foldl {headers headers' : List Header} (hk : HierarchyRenamed r k k')
    (hnames : ∀ n ∈ k.parents, n ∈ names)
    (hheaders : List.Forall₂ (HeaderRenamed r) headers headers')
    (hmem : ∀ h ∈ headers, h.name ∈ names) :
    HierarchyRenamed r (headers.foldl Hierarchy.insertHeader k)
      (headers'.foldl Hierarchy.insertHeader k') := by
  induction hheaders generalizing k k' with
  | nil => exact hk
  | @cons h h' rest rest' hh _ ih =>
    obtain ⟨hname, hrest⟩ := List.forall_mem_cons.1 hmem
    refine ih (hk.insertHeader hinj hnames hh hname) (fun n hn => ?_) hrest
    rcases Std.HashMap.mem_insert.1 hn with hn | hn
    · exact (beq_iff_eq.1 hn) ▸ hname
    · exact hnames n hn

end Insert

end HierarchyRenamed

/-! ## Archives -/

theorem hierarchyOf_eq_ok {entries : List Entry} {k : Hierarchy} :
    hierarchyOf entries = .ok k
      ↔ ∃ headers, (classEntries entries).mapM headerOf = .ok headers
        ∧ headers.foldl Hierarchy.insertHeader .empty = k := by
  simp only [hierarchyOf, except_bind_eq_ok, except_pure_eq_ok]

/-- A class of an archive has this name. -/
def Declares (entries : List Entry) (name : String) : Prop :=
  ∃ e ∈ classEntries entries, ∃ c, ClassFile.parse e.content = .ok c ∧ c.name = .ok name

/-- The names in the headers are those that the classes declare. -/
theorem declares_iff {entries : List Entry} {headers : List Header}
    (hparse : ∀ e ∈ classEntries entries, ∃ c, ClassFile.parse e.content = .ok c)
    (hheaders : (classEntries entries).mapM headerOf = .ok headers) {name : String} :
    Declares entries name ↔ ∃ h ∈ headers, h.name = name := by
  constructor
  · rintro ⟨e, he, c, hc, hname⟩
    obtain ⟨h, hh⟩ := exists_mapM_eq_ok.1 ⟨_, hheaders⟩ e he
    refine ⟨h, (mem_mapM_iff hheaders).2 ⟨e, he, hh⟩, ?_⟩
    exact Except.ok.inj ((header_eq_ok.1 ((headerOf_iff hc).1 hh)).2.1.symm.trans hname)
  · rintro ⟨h, hmem, rfl⟩
    obtain ⟨e, he, hh⟩ := (mem_mapM_iff hheaders).1 hmem
    obtain ⟨c, hc⟩ := hparse e he
    exact ⟨e, he, c, hc, (header_eq_ok.1 ((headerOf_iff hc).1 hh)).2.1⟩

/-- The classes of an archive that is renamed can be read. -/
theorem ArchiveRenamed.exists_parse {r : Resolver} {entries out : List Entry} {report : Report}
    (h : ArchiveRenamed r entries out report) :
    ∀ e ∈ classEntries entries, ∃ c, ClassFile.parse e.content = .ok c := by
  intro e he
  obtain ⟨hmem, hclass⟩ := List.mem_filter.1 he
  simp only [Bool.and_eq_true, Bool.not_eq_true', isClassName_iff] at hclass
  obtain ⟨_, hrename⟩ := exists_archiveRenamed.1 ⟨_, _, h⟩ e hmem hclass.1 hclass.2
  obtain ⟨c, _, hparse, -⟩ := rename_spec hrename
  exact ⟨c, hparse⟩

/-- **Renaming an archive renames its hierarchy.**  The new archive has a hierarchy exactly if the
old one has; its types are then the classes that the old one declares. If no two of these get one
name, both hierarchies have the same number of types, and the supertypes of a renamed type are the
renamed supertypes, the superclass in front. -/
theorem transform_hierarchy {r : Resolver} {entries out : List Entry} {report : Report}
    (h : transform r entries = .ok (out, report))
    (hinj : {name | Declares entries name}.InjOn (ClassName.map r.type)) :
    ((∃ k', hierarchyOf out = .ok k') ↔ ∃ k, hierarchyOf entries = .ok k)
    ∧ ∀ k, hierarchyOf entries = .ok k → (∀ n, n ∈ k.parents ↔ Declares entries n)
      ∧ ∃ k', hierarchyOf out = .ok k' ∧ HierarchyRenamed r k k'
      ∧ ∀ n ∈ k.parents, ∃ n', ClassName.map r.type n = .ok n' ∧ n' ∈ k'.parents
        ∧ (k.supertypes n).mapM (ClassName.map r.type) = .ok (k'.supertypes n') := by
  have harchive := (transform_eq_ok.1 h).1
  have hclasses := harchive.classes
  have hforward : ∀ headers, (classEntries entries).mapM headerOf = .ok headers →
      ∃ headers', (classEntries out).mapM headerOf = .ok headers'
        ∧ List.Forall₂ (HeaderRenamed r) headers headers' := fun headers hheaders =>
    mapM_of_forall₂ hclasses (fun _ _ he _ hh => he.header hh) hheaders
  refine ⟨⟨?_, ?_⟩, fun k hk => ?_⟩
  · rintro ⟨k', hk'⟩
    obtain ⟨headers', hheaders', -⟩ := hierarchyOf_eq_ok.1 hk'
    obtain ⟨headers, hheaders, -⟩ := mapM_of_forall₂ (S := fun _ _ => True) hclasses.flip
      (fun _ _ he _ hh => (ClassEntryRenamed.exists_header he hh).imp fun _ h => ⟨h, trivial⟩)
      hheaders'
    exact ⟨_, hierarchyOf_eq_ok.2 ⟨headers, hheaders, rfl⟩⟩
  · rintro ⟨k, hk⟩
    obtain ⟨headers, hheaders, -⟩ := hierarchyOf_eq_ok.1 hk
    obtain ⟨headers', hheaders', -⟩ := hforward headers hheaders
    exact ⟨_, hierarchyOf_eq_ok.2 ⟨headers', hheaders', rfl⟩⟩
  · obtain ⟨headers, hheaders, rfl⟩ := hierarchyOf_eq_ok.1 hk
    obtain ⟨headers', hheaders', hall⟩ := hforward headers hheaders
    have hdeclares : ∀ n, Declares entries n ↔ ∃ h ∈ headers, h.name = n := fun n =>
      declares_iff harchive.exists_parse hheaders
    have hrenamed := (HierarchyRenamed.empty r).foldl hinj
      (fun n hn => absurd hn Std.HashMap.not_mem_empty) hall
      (fun h hh => (hdeclares h.name).2 ⟨h, hh, rfl⟩)
    refine ⟨fun n => ?_, _, hierarchyOf_eq_ok.2 ⟨headers', hheaders', rfl⟩, hrenamed,
      fun n hn => hrenamed.supertypes hn⟩
    rw [mem_foldl_insertHeader, hdeclares]
    simp [Hierarchy.empty]

/-- The class `c` below the class `a` and the interface `i`. -/
def sampleSubclass : Bytes :=
  [0xca, 0xfe, 0xba, 0xbe, 0, 0, 0, 52, 0, 7,
    1, 0, 1, 99, 7, 0, 1, 1, 0, 1, 97, 7, 0, 3, 1, 0, 1, 105, 7, 0, 5,
    0, 32, 0, 2, 0, 4, 0, 1, 0, 6, 0, 0, 0, 0, 0, 0]

/-- The class as `sampleResolver` renames it: its superclass is called `b`. -/
def renamedSubclass : RenamedClass where
  oldName := "c"
  name := "c"
  bytes :=
    [0xca, 0xfe, 0xba, 0xbe, 0, 0, 0, 52, 0, 8,
      1, 0, 1, 99, 7, 0, 1, 1, 0, 1, 97, 7, 0, 7, 1, 0, 1, 105, 7, 0, 5, 1, 0, 1, 98,
      0, 32, 0, 2, 0, 4, 0, 1, 0, 6, 0, 0, 0, 0, 0, 0]

set_option maxRecDepth 10000 in
theorem rename_sampleSubclass : rename sampleResolver sampleSubclass = .ok renamedSubclass := by
  decide +kernel

/-- A class and the superclass of it. -/
def sampleFamily : List Entry := [.file "c.class" sampleSubclass, .file "a.class" sampleClass]

/-- The two classes as `sampleResolver` renames them. -/
def renamedFamily : List Entry :=
  [.file "c.class" renamedSubclass.bytes, .file "b.class" renamedSample.bytes]

set_option maxRecDepth 10000 in
theorem transform_sampleFamily :
    transform sampleResolver sampleFamily = .ok (renamedFamily, ⟨2, 0, 0, 0⟩) := by
  decide +kernel

theorem declares_sampleFamily {name : String} (h : Declares sampleFamily name) :
    name = "c" ∨ name = "a" := by
  have hname {bytes : Bytes} {out : RenamedClass} (hrename : rename sampleResolver bytes = .ok out)
      {c : ClassFile} (hparse : ClassFile.parse bytes = .ok c) (hc : c.name = .ok name) :
      name = out.oldName := by
    obtain ⟨c', _, hparse', hname', -⟩ := rename_spec hrename
    obtain rfl := Except.ok.inj (hparse'.symm.trans hparse)
    exact Except.ok.inj (hc.symm.trans hname')
  obtain ⟨e, he, c, hparse, hc⟩ := h
  have hclasses : classEntries sampleFamily = sampleFamily := by decide +kernel
  rw [hclasses] at he
  rcases List.mem_cons.1 he with rfl | he
  · exact .inl (hname rename_sampleSubclass hparse hc)
  · obtain rfl := List.mem_singleton.1 he
    exact .inr (hname rename_sampleClass hparse hc)

set_option maxRecDepth 10000 in
theorem hierarchyOf_sampleFamily : ∃ k, hierarchyOf sampleFamily = .ok k ∧ "c" ∈ k.parents
    ∧ k.supertypes "c" = ["a", "i"] := by
  have hheaders : (classEntries sampleFamily).mapM headerOf
      = .ok [⟨32, "c", some "a", ["i"]⟩, ⟨32, "a", none, []⟩] := by decide +kernel
  refine ⟨_, hierarchyOf_eq_ok.2 ⟨_, hheaders, rfl⟩, ?_, ?_⟩
  · simp [Hierarchy.insertHeader, Hierarchy.insert]
  · simp [Hierarchy.supertypes, Hierarchy.insertHeader, Hierarchy.insert,
      Std.HashMap.getElem_insert, Parents.toList]

theorem transform_hierarchy_sampleFamily :
    transform sampleResolver sampleFamily = .ok (renamedFamily, ⟨2, 0, 0, 0⟩)
      ∧ {name | Declares sampleFamily name}.InjOn (ClassName.map sampleResolver.type)
      ∧ ∃ k k', hierarchyOf sampleFamily = .ok k ∧ hierarchyOf renamedFamily = .ok k'
        ∧ k'.size = k.size ∧ k.supertypes "c" = ["a", "i"] ∧ k'.supertypes "c" = ["b", "i"] := by
  have hinj : {name | Declares sampleFamily name}.InjOn (ClassName.map sampleResolver.type) := by
    intro n hn m hm heq
    rcases declares_sampleFamily hn with rfl | rfl <;>
      rcases declares_sampleFamily hm with rfl | rfl
    · rfl
    · exact absurd heq (by decide)
    · exact absurd heq (by decide)
    · rfl
  obtain ⟨k, hk, hc, hsuper⟩ := hierarchyOf_sampleFamily
  obtain ⟨-, k', hk', hall, htypes⟩ := (transform_hierarchy transform_sampleFamily hinj).2 k hk
  obtain ⟨name, hname, -, hsuper'⟩ := htypes "c" hc
  have hmap : ClassName.map sampleResolver.type "c" = .ok "c" := by decide
  have hnew : ["a", "i"].mapM (ClassName.map sampleResolver.type) = .ok ["b", "i"] := by decide
  obtain rfl : name = "c" := Except.ok.inj (hname.symm.trans hmap)
  rw [hsuper] at hsuper'
  exact ⟨transform_sampleFamily, hinj, k, k', hk, hk', hall.size, hsuper,
    Except.ok.inj (hsuper'.symm.trans hnew)⟩

end Jarwright.Renaming
