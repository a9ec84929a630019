import Jarwright.Archive.Zip
import Jarwright.Machine.World

/-!
# Archives on the disk

An archive is a file, and a directory can stand in for one where entries are only read.

* `contentOf?` gives the content of an entry, `entryNames` the names of all;
* `copyEntries` makes an archive of some entries, which stay as they are;
* `remakeEntries` makes an archive whose files have new contents.

When the making of an archive fails, the entries that were written until then are there.
-/

namespace Jarwright.Archive

open Machine Machine.Action

/-- Why an archive cannot be used. -/
inductive Fault where
  /-- A file or directory cannot be accessed. -/
  | file (path : String)
  /-- A file is no archive, or an archive cannot be made. -/
  | malformed (path : String)
  /-- An entry would not be put below the directory that it is extracted to. -/
  | outside (name root : String)
  deriving DecidableEq, Repr, Inhabited

/-- The wording of a fault. -/
def Fault.message : Fault → String
  | .file path => s!"failed to access {path}"
  | .malformed path => s!"failed to read zip {path}"
  | .outside name root => s!"entry {name} would be extracted outside of {root}"

/-- The entries of a file. -/
def openEntries (path : String) : Action Fault (List Entry) := do
  match ← attempt (readFile path) with
  | .error .isADirectory => throw (.malformed path)
  | .error _ => throw (.file path)
  | .ok content =>
    match Zip.parse? content with
    | some entries => return entries
    | none => throw (.malformed path)

/-- The content of an entry, if there is one of that name. In a directory, only files count. -/
def contentOf? (path name : String) : Action Fault (Option Bytes) := do
  if ← isDirectory path then
    let inner := Path.join path name
    if ← isFile inner then return some (← mapFault (fun _ => .file inner) (readFile inner))
    else return none
  else
    return ((← openEntries path).find? (·.name == name)).map (·.content)

/-- The names of all entries in order. -/
def entryNames (path : String) : Action Fault (List String) := do
  return (← openEntries path).map (·.name)

/-- Opens an archive and begins another one. The file is empty from then on, so an archive with
entries cannot be made into itself. -/
def beginFrom (source target : String) : Action Fault (List Entry) := do
  let entries ← openEntries source
  mapFault (fun _ => .file target) (writeFile target [])
  if entries.isEmpty then return []
  match ← attempt (readFile source) with
  | .ok content => if (Zip.parse? content).isSome then return entries else throw (.malformed source)
  | .error _ => throw (.malformed source)

/-- Writes an archive. -/
def finish (target : String) (entries : List Entry) : Action Fault Unit :=
  mapFault (fun _ => .file target) (writeFile target (Zip.encode entries))

/-- Makes an archive of the entries whose names are kept, and counts them. -/
def copyEntries (source target : String) (keep : String → Bool) : Action Fault Nat := do
  let entries := (← beginFrom source target).filter fun e => keep e.name
  finish target entries
  return entries.length

/-- The entries behind those that are written already, with new contents for files, or without
them. Directories are written anew. What is written remains when something fails. -/
def remadeFrom {ε : Type} (target : String) (wrap : Fault → ε)
    (content : String → Bytes → Except ε (Option Bytes)) (written : List Entry) (files : Nat) :
    List Entry → List Entry × Except ε Nat
  | [] => (written, .ok files)
  | e :: rest =>
    if e.isDirectory then
      match add? written (.directory e.name) with
      | none => (written, .error (wrap (.malformed target)))
      | some written => remadeFrom target wrap content written files rest
    else
      match content e.name e.content with
      | .error cause => (written, .error cause)
      | .ok none => remadeFrom target wrap content written files rest
      | .ok (some bytes) =>
        match add? written (.file e.name bytes) with
        | none => (written, .error (wrap (.malformed target)))
        | some written => remadeFrom target wrap content written (files + 1) rest

/-- Makes an archive with new contents, and counts its files. -/
def remakeEntries {ε : Type} (source target : String) (wrap : Fault → ε)
    (content : String → Bytes → Except ε (Option Bytes)) : Action ε Nat := do
  let entries ← mapFault wrap (beginFrom source target)
  let (written, result) := remadeFrom target wrap content [] 0 entries
  mapFault wrap (finish target written)
  orFail id result

end Jarwright.Archive
