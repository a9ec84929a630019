import Jarwright.Machine.Replacement
import Jarwright.Store.Fingerprint
import Jarwright.Store.Location
import Jarwright.Store.Metadata

/-!
# The repository

A repository keeps the products of a build by their coordinates. An artifact is there when its
content and its sidecar are: the sidecar is written first, and the old content is removed before,
so that a content is never seen with the sidecar of another one. Snapshots are only there for a
while.

* `Repository.contains` and `Repository.fetch` look for an artifact;
* `Repository.store` and `Repository.remove` change what is there, and hold a lock meanwhile.
-/

namespace Jarwright.Store

open Machine Machine.Action

/-- Why a repository does not do what it is asked. -/
inductive Fault where
  | file (cause : Machine.Fault)
  /-- The sidecar cannot be read. -/
  | malformed
  | notFound (coordinate : Coordinate)
  /-- The content is not the one that was stored. -/
  | changed (path expected found : String)
  deriving DecidableEq, Repr, Inhabited

/-- The wording of a fault. -/
def Fault.message : Fault → String
  | .file _ => "io error"
  | .malformed => "json error"
  | .notFound c => s!"artifact {c.text} not found"
  | .changed path expected found =>
    s!"artifact checksum mismatch for {path}: expected {expected}, found {found}"

/-- A place for artifacts. -/
structure Repository where
  root : String
  /-- How long snapshots are there, in milliseconds. -/
  lifetime : Nat := 24 * 60 * 60 * 1000
  deriving DecidableEq, Repr, Inhabited

/-- Takes the lock at a path, which is a file that stays. It is given back at once when the one who
holds it is done, so that nobody ever has to wait in a single build. -/
def takeLock (path : String) : Action Machine.Fault Unit := do
  match Path.parent? path with
  | some parent => makeDirectories parent
  | none => pure ()
  if ← isFile path then return else createFile path

namespace Metadata

/-- Reads a sidecar; there may be none. -/
def load? (path : String) : Action Fault (Option Metadata) := do
  match ← attempt (readFile path) with
  | .error .notFound => return none
  | .error e => throw (.file e)
  | .ok content =>
    match parse? content with
    | some m => return some m
    | none => throw .malformed

/-- Writes a sidecar. -/
def save (m : Metadata) (path : String) : Action Fault Unit :=
  mapFault .file (replaceFile path m.encode)

end Metadata

namespace Repository

/-- The metadata of an artifact, if it has a sidecar. -/
def metadata? (r : Repository) (c : Coordinate) : Action Fault (Option Metadata) :=
  Metadata.load? (c.sidecarPath r.root)

/-- Whether an artifact is there. One whose sidecar cannot be read is not. -/
def contains (r : Repository) (c : Coordinate) : Action Fault Bool := do
  if !(← isFile (c.contentPath r.root)) then return false
  match ← attempt (r.metadata? c) with
  | .error .malformed => return false
  | .error e => throw e
  | .ok none => return false
  | .ok (some m) =>
    if c.isSnapshot then return m.age (← now) < r.lifetime else return true

/-- The path of an artifact whose content is the one that was stored. -/
def fetch (r : Repository) (c : Coordinate) : Action Fault String := do
  if !(← r.contains c) then throw (.notFound c)
  let path := c.contentPath r.root
  match ← r.metadata? c with
  | none => return path
  | some m =>
    let found := (Fingerprint.ofBytes (← mapFault .file (readFile path))).hex
    if found = m.sha256 then return path else throw (.changed path m.sha256 found)

/-- Removes a file that may be missing. -/
def removeIfThere (path : String) : Action Machine.Fault Unit := do
  match ← attempt (removeFile path) with
  | .ok () => return
  | .error .notFound => return
  | .error e => throw e

/-- Stores the content of a file as an artifact. -/
def store (r : Repository) (c : Coordinate) (source : String) (description : Option String) :
    Action Fault String := do
  mapFault .file (takeLock (c.lockPath r.root))
  let path := c.contentPath r.root
  let content ← mapFault .file (readFile source)
  let m : Metadata := {
    coordinate := c
    description
    sha256 := (Fingerprint.ofBytes content).hex
    size := content.length
    created := ← now }
  mapFault .file (removeIfThere path)
  m.save (c.sidecarPath r.root)
  mapFault .file (replaceWith path do return ⟨← readFile source, none⟩)
  return path

/-- Removes an artifact and its sidecar. -/
def remove (r : Repository) (c : Coordinate) : Action Fault Unit := do
  mapFault .file (takeLock (c.lockPath r.root))
  mapFault .file (removeIfThere (c.contentPath r.root))
  mapFault .file (removeIfThere (c.sidecarPath r.root))

end Repository

end Jarwright.Store
