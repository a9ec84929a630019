import Jarwright.Archive.Zip
import Jarwright.Renaming.Class

/-!
# Renaming an archive

Every class of an archive is renamed and stored under its new name. Directories and other files are
copied as they are, and signatures of the archive are left out, since they would not match any more.

* `hierarchyOf` collects what the classes say about their supertypes;
* `transform` renames entry by entry in order;
* `renameByTables` does both with the tables of names.
-/

namespace Jarwright.Renaming

open Archive

/-- Why an archive cannot be renamed. -/
inductive ArchiveFault where
  /-- There is no file to read. -/
  | unreadable
  /-- The file is no archive. -/
  | notAnArchive
  /-- Two entries of the new archive would have one name. -/
  | duplicateName
  | badClass (entry : String) (cause : ClassFile.Fault)
  deriving DecidableEq, Repr, Inhabited

/-- The wording of a fault; only a malformed class has more to say than its kind. -/
def ArchiveFault.message : ArchiveFault → String
  | .unreadable => "io error"
  | .notAnArchive => "failed to open archive"
  | .duplicateName => "zip error"
  | .badClass entry cause => s!"malformed class entry {entry}: {cause.message}"

/-- The entries of a file. -/
def openArchive (content : Option Bytes) : Except ArchiveFault (List Entry) :=
  match content with
  | none => .error .unreadable
  | some bytes =>
    match Zip.parse? bytes with
    | some entries => .ok entries
    | none => .error .notAnArchive

/-- Upper case for the letters of ASCII. -/
def upperAscii (c : Char) : Char :=
  if 'a' ≤ c ∧ c ≤ 'z' then Char.ofNat (c.toNat - 32) else c

/-- The endings of signature files, in upper case. -/
def signatureEndings : List String := [".SF", ".RSA", ".DSA", ".EC"]

/-- Whether a name is that of a signature: a file directly in the folder of the manifest, with one
of the endings in any case. -/
def isSignatureName (name : String) : Bool :=
  match Text.dropFront? "META-INF/".toList name.toList with
  | none => false
  | some file =>
    !file.contains '/'
      && signatureEndings.any fun ending => Text.endsWith ending.toList (file.map upperAscii)

/-- Whether a name is that of a class. -/
def isClassName (name : String) : Bool := Text.endsWith ".class".toList name.toList

/-- What becomes of an entry. -/
inductive Role where
  | directory | signature | resource | classFile
  deriving DecidableEq, Repr, Inhabited

/-- The role of an entry; a directory is one whatever its name. -/
def roleOf (e : Entry) : Role :=
  if e.isDirectory then .directory
  else if isSignatureName e.name then .signature
  else if isClassName e.name then .classFile
  else .resource

/-! ## Hierarchy -/

/-- The header of an entry that holds a class. -/
def headerOf (e : Entry) : Except ArchiveFault ClassFile.Header :=
  match ClassFile.Header.parse e.content with
  | .ok h => .ok h
  | .error cause => .error (.badClass e.name cause)

/-- The entries that hold classes. -/
def classEntries (entries : List Entry) : List Entry :=
  entries.filter fun e => !e.isDirectory && isClassName e.name

/-- What the classes of an archive say about their supertypes; a later class takes the place of an
earlier one of the same name. -/
def hierarchyOf (entries : List Entry) : Except ArchiveFault Hierarchy := do
  let headers ← (classEntries entries).mapM headerOf
  return headers.foldl Hierarchy.insertHeader .empty

/-! ## Entries -/

/-- The name under which a renamed class is stored: whatever folder precedes the old name of the
class is kept, and an entry that is not called by that name keeps its own. -/
def entryName (entry : String) (c : RenamedClass) : String :=
  match Text.dropBack? (c.oldName ++ ".class").toList entry.toList with
  | none => entry
  | some folder =>
    if folder = [] ∨ folder.getLast? = some '/' then
      String.ofList (folder ++ (c.name ++ ".class").toList)
    else entry

/-- What is stored in the place of an entry, if anything. -/
def renameEntry (r : Resolver) (e : Entry) : Except ArchiveFault (Option Entry) :=
  match roleOf e with
  | .directory => .ok (some e)
  | .signature => .ok none
  | .resource => .ok (some e)
  | .classFile =>
    match rename r e.content with
    | .ok c => .ok (some (.file (entryName e.name c) c.bytes))
    | .error cause => .error (.badClass e.name cause)

/-- Counts of what became of the entries of an archive. -/
structure Report where
  classes : Nat
  resources : Nat
  directories : Nat
  droppedSignatures : Nat
  deriving DecidableEq, Repr, Inhabited

/-- Counts an entry by its role. -/
def Report.count (report : Report) : Role → Report
  | .directory => { report with directories := report.directories + 1 }
  | .signature => { report with droppedSignatures := report.droppedSignatures + 1 }
  | .resource => { report with resources := report.resources + 1 }
  | .classFile => { report with classes := report.classes + 1 }

/-- Renames entries behind those that are written already. -/
def transformFrom (r : Resolver) (written : List Entry) (report : Report) :
    List Entry → Except ArchiveFault (List Entry × Report)
  | [] => .ok (written, report)
  | e :: rest =>
    match renameEntry r e with
    | .error cause => .error cause
    | .ok none => transformFrom r written (report.count (roleOf e)) rest
    | .ok (some new) =>
      match add? written new with
      | none => .error .duplicateName
      | some written => transformFrom r written (report.count (roleOf e)) rest

/-- Renames the entries of an archive in order. -/
def transform (r : Resolver) (entries : List Entry) :
    Except ArchiveFault (List Entry × Report) :=
  transformFrom r [] ⟨0, 0, 0, 0⟩ entries

/-- The resolver of an archive: names by owner first, and then names of members alone. -/
def standardResolver (table : Mapping.Compact) (fields methods : Mapping.Csv) (h : Hierarchy) :
    Resolver :=
  (Resolver.byOwner table h).compose (.byName fields methods)

/-- Renames an archive with its own hierarchy. -/
def renameByTables (table : Mapping.Compact) (fields methods : Mapping.Csv) (entries : List Entry) :
    Except ArchiveFault (List Entry × Report) := do
  let h ← hierarchyOf entries
  transform (standardResolver table fields methods h) entries

end Jarwright.Renaming
