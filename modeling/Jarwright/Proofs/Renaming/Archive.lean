import Jarwright.Proofs.Renaming.Class
import Jarwright.Renaming.Archive

/-!
# What a renaming makes of an archive

`EntryRenamed` says, by the name of an entry, what role it plays and what is stored in its place;
`ArchiveRenamed` puts that together for a list of entries in order, with the counts of the roles.
Neither speaks of success: a class that cannot be renamed has nothing in its place, and names may
be given twice.

* `entryRenamed_iff`: the role of an entry and what is stored in its place are those that are
  computed;
* `transformFrom_cons_eq_ok`: what one step of a run over entries does;
* `transformFrom_eq_ok`: a run over entries stores what `ArchiveRenamed` says behind what is there,
  and goes through exactly if no name is given twice;
* `transform_entries` is the result on whole archives.
-/

namespace Jarwright.Renaming

open Archive

/-! ## Names -/

/-- The name of a class file. -/
def IsClass (name : String) : Prop := ∃ stem, name = stem ++ ".class"

/-- The name of a signature: a file directly in the folder of the manifest whose name in upper case
has one of the endings. -/
def IsSignature (name : String) : Prop :=
  ∃ file, name = "META-INF/" ++ file ∧ '/' ∉ file.toList
    ∧ ∃ ending ∈ signatureEndings, ending.toList <:+ file.toList.map upperAscii

/-- No folder, or a path up to a slash. -/
def IsFolder (folder : String) : Prop := folder = "" ∨ ∃ path, folder = path ++ "/"

theorem isClassName_iff {name : String} : isClassName name = true ↔ IsClass name := by
  rw [isClassName, Text.endsWith_iff]
  constructor
  · rintro ⟨stem, h⟩
    exact ⟨String.ofList stem, String.toList_inj.1 (by simp [← h])⟩
  · rintro ⟨stem, rfl⟩
    exact ⟨stem.toList, by simp⟩

theorem isSignatureName_iff {name : String} : isSignatureName name = true ↔ IsSignature name := by
  unfold isSignatureName IsSignature
  constructor
  · intro h
    split at h
    · cases h
    · rename_i file hfile
      simp only [Bool.and_eq_true, Bool.not_eq_true', List.contains_eq_mem, decide_eq_false_iff_not,
        List.any_eq_true, Text.endsWith_iff] at h
      refine ⟨String.ofList file, String.toList_inj.1 ?_, by simpa using h.1, by simpa using h.2⟩
      rw [Text.eq_append_of_dropFront? hfile]
      simp
  · rintro ⟨file, rfl, hslash, hending⟩
    rw [String.toList_append, Text.dropFront?_append]
    simp only [Bool.and_eq_true, Bool.not_eq_true', List.contains_eq_mem, decide_eq_false_iff_not,
      List.any_eq_true, Text.endsWith_iff]
    exact ⟨hslash, hending⟩

theorem getLast?_signatureEnding :
    ∀ ending ∈ signatureEndings, ∃ c ∈ ['F', 'A', 'C'], ending.toList.getLast? = some c := by
  simp [signatureEndings]

/-- No signature is a class: the endings differ in their last letter. -/
theorem IsSignature.not_isClass {name : String} (h : IsSignature name) : ¬ IsClass name := by
  rintro ⟨stem, hstem⟩
  obtain ⟨file, rfl, -, ending, hending, front, hfront⟩ := h
  obtain ⟨last, hmem, hlast⟩ := getLast?_signatureEnding ending hending
  have hupper : file.toList.getLast?.map upperAscii = some last := by
    rw [← List.getLast?_map, ← hfront, List.getLast?_append, hlast]
    rfl
  obtain ⟨c, hc, rfl⟩ := Option.map_eq_some_iff.1 hupper
  have hclass : ("META-INF/" ++ file).toList.getLast? = some 's' := by
    rw [hstem, String.toList_append, List.getLast?_append]
    rfl
  rw [String.toList_append, List.getLast?_append, hc] at hclass
  obtain rfl : c = 's' := Option.some.inj hclass
  exact absurd hmem (by decide)

/-! ## Entries -/

/-- The name under which a renamed class is stored: behind a folder that precedes the old name of
the class comes the new one, and an entry with another name keeps it. -/
inductive StoredAs (entry : String) (c : RenamedClass) : String → Prop where
  | renamed {folder : String} : IsFolder folder → entry = folder ++ c.oldName ++ ".class" →
      StoredAs entry c (folder ++ c.name ++ ".class")
  | kept : (∀ folder, IsFolder folder → entry ≠ folder ++ c.oldName ++ ".class") →
      StoredAs entry c entry

/-- The role of an entry, and what is stored in its place, if anything. -/
inductive EntryRenamed (r : Resolver) (e : Entry) : Role → Option Entry → Prop where
  | directory : e.isDirectory = true → EntryRenamed r e .directory (some e)
  | signature : e.isDirectory = false → IsSignature e.name → EntryRenamed r e .signature none
  | resource : e.isDirectory = false → ¬ IsSignature e.name → ¬ IsClass e.name →
      EntryRenamed r e .resource (some e)
  | classFile {c : RenamedClass} {name : String} : e.isDirectory = false → IsClass e.name →
      rename r e.content = .ok c → StoredAs e.name c name →
      EntryRenamed r e .classFile (some (.file name c.bytes))

/-- The entries that a renaming puts in the place of others, in order, and the counts of their
roles. -/
inductive ArchiveRenamed (r : Resolver) : List Entry → List Entry → Report → Prop where
  | nil : ArchiveRenamed r [] [] ⟨0, 0, 0, 0⟩
  | cons {e : Entry} {role : Role} {stored : Option Entry} {entries out : List Entry}
      {report : Report} : EntryRenamed r e role stored → ArchiveRenamed r entries out report →
      ArchiveRenamed r (e :: entries) (stored.toList ++ out) (report.count role)

theorem isFolder_iff {folder : String} :
    IsFolder folder ↔ folder.toList = [] ∨ folder.toList.getLast? = some '/' := by
  rw [List.getLast?_eq_some_iff, IsFolder]
  refine or_congr ?_ ⟨?_, ?_⟩
  · rw [← String.toList_inj]
    rfl
  · rintro ⟨path, rfl⟩
    exact ⟨path.toList, by simp⟩
  · rintro ⟨path, h⟩
    exact ⟨String.ofList path, String.toList_inj.1 (by simpa using h)⟩

/-- The folder in front of the old name of a class, as the entry shows it. -/
theorem dropBack?_entry {entry old : String} {folder : List Char} :
    Text.dropBack? (old ++ ".class").toList entry.toList = some folder
      ↔ entry = String.ofList folder ++ old ++ ".class" := by
  rw [Text.dropBack?_eq_some, ← String.toList_inj]
  simp

theorem dropBack?_of_entry_eq {entry old folder : String} (h : entry = folder ++ old ++ ".class") :
    Text.dropBack? (old ++ ".class").toList entry.toList = some folder.toList :=
  dropBack?_entry.2 (String.ofList_toList.symm ▸ h)

theorem StoredAs.eq_entryName {entry name : String} {c : RenamedClass} (h : StoredAs entry c name) :
    name = entryName entry c := by
  cases h with
  | @renamed folder hfolder hentry =>
    rw [entryName, dropBack?_of_entry_eq hentry]
    simp only [if_pos (isFolder_iff.1 hfolder)]
    exact String.toList_inj.1 (by simp)
  | kept hno =>
    unfold entryName
    split
    · rfl
    · rename_i folder hsome
      have hfolder : ¬ IsFolder (String.ofList folder) :=
        fun h => hno _ h (dropBack?_entry.1 hsome)
      rw [isFolder_iff, String.toList_ofList] at hfolder
      rw [if_neg hfolder]

theorem storedAs_entryName (entry : String) (c : RenamedClass) :
    StoredAs entry c (entryName entry c) := by
  unfold entryName
  split
  · rename_i hnone
    refine .kept fun folder _ h => ?_
    rw [dropBack?_of_entry_eq h] at hnone
    cases hnone
  · rename_i folder hsome
    split
    · rename_i hcond
      have hname : String.ofList (folder ++ (c.name ++ ".class").toList)
          = String.ofList folder ++ c.name ++ ".class" := String.toList_inj.1 (by simp)
      rw [hname]
      refine .renamed (isFolder_iff.2 ?_) (dropBack?_entry.1 hsome)
      rw [String.toList_ofList]
      exact hcond
    · rename_i hcond
      refine .kept fun other hother h => hcond ?_
      obtain rfl : folder = other.toList :=
        Option.some.inj (hsome.symm.trans (dropBack?_of_entry_eq h))
      exact isFolder_iff.1 hother

/-- The role of an entry by its name. -/
theorem roleOf_cases (e : Entry) :
    e.isDirectory = true ∧ roleOf e = .directory
    ∨ e.isDirectory = false ∧ IsSignature e.name ∧ roleOf e = .signature
    ∨ e.isDirectory = false ∧ IsClass e.name ∧ roleOf e = .classFile
    ∨ e.isDirectory = false ∧ ¬ IsSignature e.name ∧ ¬ IsClass e.name ∧ roleOf e = .resource := by
  unfold roleOf
  split
  · rename_i hdir
    exact .inl ⟨hdir, rfl⟩
  · rename_i hdir
    have hdir : e.isDirectory = false := Bool.not_eq_true _ ▸ hdir
    split
    · rename_i hsig
      exact .inr (.inl ⟨hdir, isSignatureName_iff.1 hsig, rfl⟩)
    · rename_i hsig
      split
      · rename_i hclass
        exact .inr (.inr (.inl ⟨hdir, isClassName_iff.1 hclass, rfl⟩))
      · rename_i hclass
        rw [isSignatureName_iff] at hsig
        rw [isClassName_iff] at hclass
        exact .inr (.inr (.inr ⟨hdir, hsig, hclass, rfl⟩))

/-- The role of an entry and what is stored in its place are those that are computed. -/
theorem entryRenamed_iff {r : Resolver} {e : Entry} {role : Role} {stored : Option Entry} :
    EntryRenamed r e role stored ↔ role = roleOf e ∧ renameEntry r e = .ok stored := by
  constructor
  · intro h
    cases h with
    | directory hdir => simp [renameEntry, roleOf, hdir]
    | signature hdir hsig => simp [renameEntry, roleOf, hdir, isSignatureName_iff.2 hsig]
    | resource hdir hsig hclass =>
      simp [renameEntry, roleOf, hdir, isSignatureName_iff, isClassName_iff, hsig, hclass]
    | classFile hdir hclass hrename hstored =>
      have hsig : ¬ IsSignature e.name := fun h => h.not_isClass hclass
      simp [renameEntry, roleOf, hdir, isSignatureName_iff, isClassName_iff, hsig, hclass, hrename,
        hstored.eq_entryName]
  · rintro ⟨rfl, h⟩
    rcases roleOf_cases e with ⟨hdir, hrole⟩ | ⟨hdir, hsig, hrole⟩ | ⟨hdir, hclass, hrole⟩
      | ⟨hdir, hsig, hclass, hrole⟩
    all_goals
      rw [renameEntry, hrole] at h
      rw [hrole]
    · obtain rfl := Except.ok.inj h
      exact .directory hdir
    · obtain rfl := Except.ok.inj h
      exact .signature hdir hsig
    · dsimp only at h
      split at h
      · rename_i c hrename
        obtain rfl := Except.ok.inj h
        exact .classFile hdir hclass hrename (storedAs_entryName _ _)
      · cases h
    · obtain rfl := Except.ok.inj h
      exact .resource hdir hsig hclass

/-- An entry has something to put in its place unless it holds a class that cannot be renamed. -/
theorem exists_entryRenamed {r : Resolver} {e : Entry} :
    (∃ role stored, EntryRenamed r e role stored)
      ↔ (e.isDirectory = false → IsClass e.name → ∃ c, rename r e.content = .ok c) := by
  constructor
  · rintro ⟨role, stored, h⟩ hdir hclass
    cases h with
    | directory hdir' => exact absurd (hdir.symm.trans hdir') (by decide)
    | signature _ hsig => exact absurd hclass hsig.not_isClass
    | resource _ _ hno => exact absurd hclass hno
    | classFile _ _ hrename _ => exact ⟨_, hrename⟩
  · intro h
    rcases roleOf_cases e with ⟨hdir, -⟩ | ⟨hdir, hsig, -⟩ | ⟨hdir, hclass, -⟩
      | ⟨hdir, hsig, hclass, -⟩
    · exact ⟨_, _, .directory hdir⟩
    · exact ⟨_, _, .signature hdir hsig⟩
    · obtain ⟨c, hrename⟩ := h hdir hclass
      exact ⟨_, _, .classFile hdir hclass hrename (storedAs_entryName _ _)⟩
    · exact ⟨_, _, .resource hdir hsig hclass⟩

/-! ## Counts -/

namespace Report

/-- The counts of two parts of an archive together. -/
def add (a b : Report) : Report :=
  ⟨a.classes + b.classes, a.resources + b.resources, a.directories + b.directories,
    a.droppedSignatures + b.droppedSignatures⟩

/-- The number of entries that are counted. -/
def total (report : Report) : Nat :=
  report.classes + report.resources + report.directories + report.droppedSignatures

@[simp] theorem zero_add (report : Report) : (⟨0, 0, 0, 0⟩ : Report).add report = report := by
  simp [add]

@[simp] theorem add_zero (report : Report) : report.add ⟨0, 0, 0, 0⟩ = report := by
  simp [add]

theorem count_add (a b : Report) (role : Role) :
    (a.count role).add b = a.add (b.count role) := by
  cases role <;> simp only [count, add, mk.injEq, true_and, and_true] <;> omega

theorem total_count (report : Report) (role : Role) :
    (report.count role).total = report.total + 1 := by
  cases role <;> simp only [count, total] <;> omega

end Report

/-! ## Archives -/

theorem add?_eq_some {written out : List Entry} {e : Entry} :
    add? written e = some out ↔ e.name ∉ written.map Entry.name ∧ out = written ++ [e] := by
  have hany : (written.any (·.name == e.name)) = true ↔ e.name ∈ written.map Entry.name := by
    simp [List.any_eq_true, List.mem_map]
  unfold add?
  split
  · rename_i h
    simp [hany.1 h]
  · rename_i h
    rw [hany] at h
    simp [h, eq_comm]

/-- One more name, if there is one, leaves names distinct if it is not among them. -/
theorem nodup_names_append {written : List Entry} {stored : Option Entry} :
    ((written ++ stored.toList).map Entry.name).Nodup
      ↔ (written.map Entry.name).Nodup ∧ ∀ new ∈ stored, new.name ∉ written.map Entry.name := by
  cases stored with
  | none => simp
  | some new =>
    rw [Option.toList_some, List.map_append, List.map_singleton, List.nodup_append',
      List.disjoint_singleton]
    simp only [List.nodup_singleton, true_and, Option.mem_some_iff, forall_eq']

/-- One step of a run stores what is to be put in the place of an entry, if its name is new, and
counts the entry. -/
theorem transformFrom_cons_eq_ok {r : Resolver} {e : Entry} {rest written : List Entry}
    {report : Report} {result : List Entry × Report} :
    transformFrom r written report (e :: rest) = .ok result
      ↔ ∃ stored, renameEntry r e = .ok stored
        ∧ (∀ new ∈ stored, new.name ∉ written.map Entry.name)
        ∧ transformFrom r (written ++ stored.toList) (report.count (roleOf e)) rest
          = .ok result := by
  rw [transformFrom]
  cases renameEntry r e with
  | error cause => simp
  | ok stored =>
    cases stored with
    | none => simp
    | some new =>
      simp only [Except.ok.injEq, exists_eq_left', Option.mem_some_iff, forall_eq']
      by_cases hnew : new.name ∈ written.map Entry.name
      · have hadd : add? written new = none :=
          Option.eq_none_iff_forall_ne_some.2 fun _ h => (add?_eq_some.1 h).1 hnew
        rw [hadd]
        exact iff_of_false nofun fun h => h.1 hnew
      · rw [add?_eq_some.2 ⟨hnew, rfl⟩]
        exact (and_iff_right hnew).symm

/-- A run over entries stores what is to be put in their place behind what is written already, and
goes through if no name is given twice. -/
theorem transformFrom_eq_ok {r : Resolver} {entries written out : List Entry}
    {report report' : Report} (hwritten : (written.map Entry.name).Nodup) :
    transformFrom r written report entries = .ok (out, report')
      ↔ ∃ new counts, ArchiveRenamed r entries new counts ∧ out = written ++ new
        ∧ report' = report.add counts ∧ ((written ++ new).map Entry.name).Nodup := by
  induction entries generalizing written report with
  | nil =>
    rw [transformFrom, Except.ok.injEq, Prod.mk.injEq]
    constructor
    · rintro ⟨rfl, rfl⟩
      exact ⟨[], _, .nil, by simp, by simp, by simpa using hwritten⟩
    · rintro ⟨_, _, hrenamed, rfl, rfl, -⟩
      cases hrenamed
      simp
  | cons e rest ih =>
    rw [transformFrom_cons_eq_ok]
    constructor
    · rintro ⟨stored, hrename, hnew, hrest⟩
      obtain ⟨new, counts, hrenamed, hout, hreport, hnodup⟩ :=
        (ih (nodup_names_append.2 ⟨hwritten, hnew⟩)).1 hrest
      rw [List.append_assoc] at hout hnodup
      rw [Report.count_add] at hreport
      exact ⟨_, _, .cons (entryRenamed_iff.2 ⟨rfl, hrename⟩) hrenamed, hout, hreport, hnodup⟩
    · rintro ⟨_, _, hrenamed, rfl, rfl, hnodup⟩
      cases hrenamed with
      | @cons _ _ stored _ new _ hentry hrest =>
        obtain ⟨rfl, hrename⟩ := entryRenamed_iff.1 hentry
        rw [← List.append_assoc] at hnodup
        have hmore : ((written ++ stored.toList).map Entry.name).Nodup := by
          rw [List.map_append] at hnodup
          exact (List.nodup_append.1 hnodup).1
        refine ⟨stored, hrename, (nodup_names_append.1 hmore).2, (ih hmore).2 ?_⟩
        exact ⟨new, _, hrest, (List.append_assoc ..).symm, (Report.count_add ..).symm, hnodup⟩

theorem transform_eq_ok {r : Resolver} {entries out : List Entry} {report : Report} :
    transform r entries = .ok (out, report)
      ↔ ArchiveRenamed r entries out report ∧ (out.map Entry.name).Nodup := by
  rw [transform, transformFrom_eq_ok (by simp)]
  constructor
  · rintro ⟨new, counts, hrenamed, rfl, rfl, hnodup⟩
    simpa using ⟨hrenamed, hnodup⟩
  · rintro ⟨hrenamed, hnodup⟩
    exact ⟨out, report, hrenamed, by simp, by simp, by simpa using hnodup⟩

namespace ArchiveRenamed

variable {r : Resolver} {entries out : List Entry} {report : Report}

/-- There is only one way to rename an archive. -/
theorem unique (h : ArchiveRenamed r entries out report) {out' : List Entry} {report' : Report}
    (h' : ArchiveRenamed r entries out' report') : out' = out ∧ report' = report := by
  induction h generalizing out' report' with
  | nil =>
    cases h'
    exact ⟨rfl, rfl⟩
  | cons hentry _ ih =>
    cases h' with
    | cons hentry' hrest' =>
      obtain ⟨rfl, hrename⟩ := entryRenamed_iff.1 hentry
      obtain ⟨rfl, hrename'⟩ := entryRenamed_iff.1 hentry'
      obtain rfl := Except.ok.inj (hrename.symm.trans hrename')
      obtain ⟨rfl, rfl⟩ := ih hrest'
      exact ⟨rfl, rfl⟩

/-- Every entry is counted once. -/
theorem total (h : ArchiveRenamed r entries out report) : report.total = entries.length := by
  induction h with
  | nil => rfl
  | cons _ _ ih => rw [Report.total_count, ih, List.length_cons]

end ArchiveRenamed

/-- An archive has a renamed form if all its classes have one. -/
theorem exists_archiveRenamed {r : Resolver} {entries : List Entry} :
    (∃ out report, ArchiveRenamed r entries out report)
      ↔ ∀ e ∈ entries, e.isDirectory = false → IsClass e.name →
        ∃ c, rename r e.content = .ok c := by
  induction entries with
  | nil => exact ⟨fun _ e he => absurd he List.not_mem_nil, fun _ => ⟨_, _, .nil⟩⟩
  | cons e rest ih =>
    rw [List.forall_mem_cons, ← ih, ← exists_entryRenamed]
    constructor
    · rintro ⟨_, _, h⟩
      cases h with
      | cons hentry hrest => exact ⟨⟨_, _, hentry⟩, _, _, hrest⟩
    · rintro ⟨⟨_, _, hentry⟩, _, _, hrest⟩
      exact ⟨_, _, .cons hentry hrest⟩

/-- **Renaming an archive keeps its order and loses nothing.**  It succeeds exactly if every class
can be renamed and no two of the new entries have one name. Then the new entries are the old ones in
order, where signatures are left out, directories and resources are as they were, and a class is
stored under its new name in the folder of its old one; and each entry is counted once, by its
role. -/
theorem transform_entries (r : Resolver) (entries : List Entry) :
    ((∃ result, transform r entries = .ok result)
      ↔ (∀ e ∈ entries, e.isDirectory = false → IsClass e.name →
          ∃ c, rename r e.content = .ok c)
        ∧ ∀ out report, ArchiveRenamed r entries out report → (out.map Entry.name).Nodup)
    ∧ ∀ out report, transform r entries = .ok (out, report) →
      ArchiveRenamed r entries out report ∧ report.total = entries.length := by
  refine ⟨⟨?_, ?_⟩, ?_⟩
  · rintro ⟨⟨out, report⟩, h⟩
    obtain ⟨hrenamed, hnodup⟩ := transform_eq_ok.1 h
    refine ⟨exists_archiveRenamed.1 ⟨_, _, hrenamed⟩, fun out' report' h' => ?_⟩
    obtain ⟨rfl, rfl⟩ := hrenamed.unique h'
    exact hnodup
  · rintro ⟨hclasses, hnodup⟩
    obtain ⟨out, report, hrenamed⟩ := exists_archiveRenamed.2 hclasses
    exact ⟨(out, report), transform_eq_ok.2 ⟨hrenamed, hnodup _ _ hrenamed⟩⟩
  · intro out report h
    have hrenamed := (transform_eq_ok.1 h).1
    exact ⟨hrenamed, hrenamed.total⟩

/-- A folder, a signature, a text, and `sampleClass` below a folder of its own. -/
def sampleArchive : List Entry :=
  [.directory "lib", .file "META-INF/key.rsa" [1],
    ⟨"lib/read.me", .stored, ⟨2020, 6, 1, 12, 0, 0⟩, [2]⟩, .file "lib/9/a.class" sampleClass]

/-- The archive as `sampleResolver` renames it. -/
def renamedArchive : List Entry :=
  [.directory "lib", ⟨"lib/read.me", .stored, ⟨2020, 6, 1, 12, 0, 0⟩, [2]⟩,
    .file "lib/9/b.class" renamedSample.bytes]

set_option maxRecDepth 10000 in
theorem transform_sampleArchive :
    transform sampleResolver sampleArchive = .ok (renamedArchive, ⟨1, 1, 1, 1⟩) := by
  decide +kernel

theorem transform_entries_sampleArchive :
    transform sampleResolver sampleArchive = .ok (renamedArchive, ⟨1, 1, 1, 1⟩)
      ∧ ArchiveRenamed sampleResolver sampleArchive renamedArchive ⟨1, 1, 1, 1⟩
      ∧ (renamedArchive.map Entry.name).Nodup := by
  obtain ⟨hok, hspec⟩ := transform_entries sampleResolver sampleArchive
  have hrenamed := (hspec _ _ transform_sampleArchive).1
  exact ⟨transform_sampleArchive, hrenamed, (hok.1 ⟨_, transform_sampleArchive⟩).2 _ _ hrenamed⟩

end Jarwright.Renaming
