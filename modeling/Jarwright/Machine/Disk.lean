import Jarwright.Bytes
import Jarwright.Path

/-!
# Disks

A disk is a tree of directories and files, kept as a list of places. A place is the list of names
on the way from the root, which is a directory itself and not listed.

* `Disk.locate` follows a path name by name, as every access does;
* the changes `write`, `create`, `remove`, `removeTree`, `makeDirectory`, `rename` are single steps
  that happen wholly or not at all;
* `makeDirectories` is a sequence of steps and gives the disk after each.
-/

namespace Jarwright.Machine

/-- The names on the way from the root. -/
abbrev Place := List String

/-- What is at a place. -/
inductive Node where
  | directory
  /-- A file with its content and the second at which it was written. -/
  | file (content : Bytes) (written : Nat)
  deriving DecidableEq, Repr, Inhabited

/-- Why an access fails. -/
inductive Fault where
  | notFound | notADirectory | isADirectory | alreadyExists | notEmpty | badName
  deriving DecidableEq, Repr, Inhabited

/-- A tree of directories and files. -/
structure Disk where
  nodes : List (Place × Node)
  deriving DecidableEq, Repr, Inhabited

namespace Disk

/-- The disk with nothing on it. -/
def empty : Disk := ⟨[]⟩

/-! ## Places -/

/-- What is at a place. -/
def get? (d : Disk) (p : Place) : Option Node :=
  if p.isEmpty then some .directory else d.nodes.lookup p

/-- The disk with something else at a place. -/
def put (d : Disk) (p : Place) (node : Node) : Disk :=
  if d.nodes.any (·.1 == p) then ⟨d.nodes.map fun e => if e.1 == p then (p, node) else e⟩
  else ⟨d.nodes ++ [(p, node)]⟩

/-- The disk with nothing at a place. -/
def erase (d : Disk) (p : Place) : Disk := ⟨d.nodes.filter (·.1 != p)⟩

/-- The disk with nothing at a place or below it. -/
def eraseBelow (d : Disk) (p : Place) : Disk := ⟨d.nodes.filter fun e => !p.isPrefixOf e.1⟩

/-- The places directly below a place. -/
def below (d : Disk) (p : Place) : List Place :=
  (d.nodes.map (·.1)).filter fun q => p.isPrefixOf q && q.length == p.length + 1

/-- The length that a name must not exceed, in bytes. -/
def longestName : Nat := 255

/-- Whether no file can have a name. -/
def isBadName (name : List Char) : Bool :=
  name.contains '\x00' || longestName < (name.foldl (fun n c => n + c.utf8Size) 0)

/-- Follows names from a place on, each of which has to be looked up in a directory. The last name
need not be there. -/
def follow (d : Disk) (p : Place) : List (List Char) → Except Fault Place
  | [] => .ok p
  | name :: rest =>
    match d.get? p with
    | none => .error .notFound
    | some (.file ..) => .error .notADirectory
    | some .directory =>
      if name = [] ∨ name = ['.'] then follow d p rest
      else if name = ['.', '.'] then follow d p.dropLast rest
      else if isBadName name then .error .badName
      else follow d (p ++ [String.ofList name]) rest

/-- The place of a path seen from a directory. -/
def locate (d : Disk) (directory : Place) (path : String) : Except Fault Place :=
  if path.isEmpty then .error .notFound
  else d.follow (if Path.isAbsolute path then [] else directory) (Path.segments path)

/-! ## Looking -/

/-- What a path leads to. -/
def node (d : Disk) (directory : Place) (path : String) : Except Fault Node := do
  match d.get? (← d.locate directory path) with
  | some node => return node
  | none => throw .notFound

/-- Whether a path leads to anything. -/
def holds (d : Disk) (directory : Place) (path : String) : Bool :=
  (d.node directory path).toBool

/-- Whether a path leads to a file. -/
def isFile (d : Disk) (directory : Place) (path : String) : Bool :=
  match d.node directory path with
  | .ok (.file ..) => true
  | _ => false

/-- Whether a path leads to a directory. -/
def isDirectory (d : Disk) (directory : Place) (path : String) : Bool :=
  match d.node directory path with
  | .ok .directory => true
  | _ => false

/-- The content of a file. -/
def read (d : Disk) (directory : Place) (path : String) : Except Fault Bytes := do
  match ← d.node directory path with
  | .file content _ => return content
  | .directory => throw .isADirectory

/-- The names in a directory. -/
def list (d : Disk) (directory : Place) (path : String) : Except Fault (List String) := do
  let p ← d.locate directory path
  match d.get? p with
  | some .directory => return (d.below p).map fun q => q.getLastD ""
  | some (.file ..) => throw .notADirectory
  | none => throw .notFound

/-! ## Steps -/

/-- Writes a file, which may be there already. -/
def write (d : Disk) (directory : Place) (now : Nat) (path : String) (content : Bytes) :
    Except Fault Disk := do
  let p ← d.locate directory path
  match d.get? p with
  | some .directory => throw .isADirectory
  | _ => return d.put p (.file content now)

/-- Creates an empty file, which must not be there yet. -/
def create (d : Disk) (directory : Place) (now : Nat) (path : String) : Except Fault Disk := do
  let p ← d.locate directory path
  match d.get? p with
  | some _ => throw .alreadyExists
  | none => return d.put p (.file [] now)

/-- Removes a file. -/
def remove (d : Disk) (directory : Place) (path : String) : Except Fault Disk := do
  let p ← d.locate directory path
  match d.get? p with
  | some (.file ..) => return d.erase p
  | some .directory => throw .isADirectory
  | none => throw .notFound

/-- Removes a directory and all that is in it. -/
def removeTree (d : Disk) (directory : Place) (path : String) : Except Fault Disk := do
  let p ← d.locate directory path
  match d.get? p with
  | some .directory => return d.eraseBelow p
  | some (.file ..) => throw .notADirectory
  | none => throw .notFound

/-- Makes a directory, which must not be there yet. -/
def makeDirectory (d : Disk) (directory : Place) (path : String) : Except Fault Disk := do
  let trimmed := String.ofList (Text.trimEndWith (· == '/') path.toList)
  let p ← d.locate directory (if trimmed.isEmpty then path else trimmed)
  match d.get? p with
  | some _ => throw .alreadyExists
  | none => return d.put p .directory

/-- Gives a file another place, where it takes the place of another file. -/
def rename (d : Disk) (directory : Place) (source target : String) : Except Fault Disk := do
  let p ← d.locate directory source
  let q ← d.locate directory target
  match d.get? p with
  | some (.file content written) =>
    if d.get? q = some .directory then throw .isADirectory
    else if p = q then return d
    else return (d.erase p).put q (.file content written)
  | some .directory => throw .isADirectory
  | none => throw .notFound

/-- Makes a directory and those above it that are missing. The result holds the disks after each
step, latest first, behind those that are given; a directory that is there is no fault. The number
bounds how far up to go. -/
def makeDirectories (directory : Place) (path : String) :
    Nat → Disk → Disk × List Disk × Except Fault Unit
  | 0, d => (d, [], .error .notFound)
  | n + 1, d =>
    if path.isEmpty then (d, [], .ok ())
    else match d.makeDirectory directory path with
      | .ok d' => (d', [d'], .ok ())
      | .error .notFound =>
        match Path.parent? path with
        | none => (d, [], .error .notFound)
        | some parent =>
          match makeDirectories directory parent n d with
          | (d, steps, .error e) => (d, steps, .error e)
          | (d, steps, .ok ()) =>
            match d.makeDirectory directory path with
            | .ok d' => (d', d' :: steps, .ok ())
            | .error e => (d, steps, if d.isDirectory directory path then .ok () else .error e)
      | .error e => (d, [], if d.isDirectory directory path then .ok () else .error e)

end Disk

end Jarwright.Machine
