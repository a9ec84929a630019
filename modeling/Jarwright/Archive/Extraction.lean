import Jarwright.Archive.Calendar
import Jarwright.Archive.File

/-!
# Extracting archives

The files of an archive are put below a directory. A name that would lead out of it is refused, and
a file on the disk that is not older than its entry can be kept.

* `enclosedPath?` decides whether a name stays below wherever it is put;
* `extract` puts the selected files of an archive below a directory, one after the other.
-/

namespace Jarwright.Archive

open Machine Machine.Action

/-- Whether names lead upwards from where they are seen, at depth `depth` of the way. -/
def staysBelow (depth : Nat) : List String → Bool
  | [] => true
  | name :: rest =>
    if name = ".." then
      match depth with
      | 0 => false
      | d + 1 => staysBelow d rest
    else if name = "." then staysBelow depth rest
    else staysBelow (depth + 1) rest

/-- The path of an entry if it stays below the directory that it is seen from, all the way. -/
def enclosedPath? (name : String) : Option String :=
  if name.toList.contains '\x00' || Path.isAbsolute name then none
  else if staysBelow 0 (Path.components name) then some name
  else none

/-- Which files on the disk are written over. -/
inductive Overwrite where
  | always
  /-- Only those that are older than their entries. -/
  | ifOlder
  deriving DecidableEq, Repr, Inhabited

/-- A file of an archive, its path on the disk, and whether it was written. -/
structure Extracted where
  name : String
  path : String
  written : Bool
  deriving DecidableEq, Repr, Inhabited

/-- Whether what is on the disk is not older than a stamp; whatever is there is not older than a
stamp that names no time. -/
def isRecent (path : String) (stamp : Stamp) : Action Fault Bool := do
  match ← changeTime? path with
  | some time => return !stamp.isValid || stamp.seconds ≤ time
  | none => return false

/-- Whether what is on the disk is not written over. -/
def isKept (overwrite : Overwrite) (path : String) (stamp : Stamp) : Action Fault Bool :=
  match overwrite with
  | .always => return false
  | .ifOlder => isRecent path stamp

/-- Whether an archive still has its entries, which it has not once it is written over itself. -/
def isIntact (source : String) (entries : List Entry) : Action Fault Bool := do
  match ← attempt (openEntries source) with
  | .ok found => return found == entries
  | .error _ => return false

/-- Makes the directories above a file. -/
def makeFolderOf (path : String) : Action Fault Unit :=
  match Path.parent? path with
  | none => pure ()
  | some folder => mapFault (fun _ => .file folder) (makeDirectories folder)

/-- Writes a file of an open archive. It is empty before its content is read from the archive. -/
def writeContent (source path : String) (entries : List Entry) (content : Bytes) :
    Action Fault Unit := do
  mapFault (fun _ => .file path) (writeFile path [])
  if !content.isEmpty then
    if !(← isIntact source entries) then throw (.file path)
    mapFault (fun _ => .file path) (writeFile path content)

/-- Puts a file of an open archive below a directory. -/
def extractEntry (source root : String) (entries : List Entry) (overwrite : Overwrite) (e : Entry) :
    Action Fault Extracted := do
  match enclosedPath? e.name with
  | none => throw (.outside e.name root)
  | some relative =>
    let path := Path.join root relative
    if ← isKept overwrite path e.time then return ⟨e.name, path, false⟩
    makeFolderOf path
    writeContent source path entries e.content
    return ⟨e.name, path, true⟩

/-- The files of an archive whose names are selected. -/
def selectedFiles (select : String → Bool) (entries : List Entry) : List Entry :=
  entries.filter fun e => !e.isDirectory && select e.name

/-- Puts files of an open archive below a directory, one after the other. -/
def extractFiles (source root : String) (entries : List Entry) (overwrite : Overwrite)
    (files : List Entry) : Action Fault (List Extracted) :=
  files.mapM (extractEntry source root entries overwrite)

/-- Puts the selected files of an archive below a directory. -/
def extract (source root : String) (overwrite : Overwrite) (select : String → Bool) :
    Action Fault (List Extracted) := do
  let entries ← openEntries source
  extractFiles source root entries overwrite (selectedFiles select entries)

end Jarwright.Archive
