import Jarwright.Machine.World
import Jarwright.Text.Number

/-!
# Replacing files at once

A file is replaced by writing another one next to it and giving that one its name. So whoever reads
it finds the old content or the whole new one, and a writer that fails leaves nothing behind.

* `replaceWith` takes the content from an action that may fail on the way;
* `replaceFile` writes a given content.
-/

namespace Jarwright.Machine

open Machine.Action

/-- What an action wrote, and the fault that stopped it, if any. -/
structure Draft where
  content : Bytes
  fault : Option Fault
  deriving DecidableEq, Repr, Inhabited

/-- The name of the temporary file with a number. -/
def temporaryName (name mark : String) (number : Nat) : String :=
  name ++ ".tmp." ++ mark ++ "." ++ String.ofList (Text.decimal number)

/-- A number that has not been used yet. -/
def nextSerial {ε : Type} : Action ε Nat := fun _ w =>
  .ok w.serial { w with serial := w.serial + 1 }

/-- Creates a temporary file under the first free name. Among more names than there are places on
the disk one is free, so the number of places bounds the search. -/
def createNextTo (directory name : String) : Nat → Action Fault String
  | 0 => throw .alreadyExists
  | n + 1 => do
    let number ← nextSerial
    let mark := (← read).mark
    let path := Path.join directory (temporaryName name mark number)
    match ← attempt (createFile path) with
    | .ok () => return path
    | .error .alreadyExists => createNextTo directory name n
    | .error e => throw e

/-- How many names may have to be tried. -/
def nameBound {ε : Type} : Action ε Nat := look fun _ d => d.nodes.length + 1

/-- Replaces a file by what an action writes. -/
def replaceWith (path : String) (produce : Action Fault Draft) : Action Fault Unit := do
  let parent ← match Path.parent? path with
    | none => throw .badName
    | some "" => pure "."
    | some parent => pure parent
  makeDirectories parent
  let name ← match Path.fileName? path with
    | none => throw .badName
    | some name => pure name
  let temporary ← createNextTo parent name (← nameBound)
  let written ← attempt do
    let draft ← produce
    writeFile temporary draft.content
    match draft.fault with
    | some e => throw e
    | none => pure ()
  match written with
  | .error e =>
    let _ ← attempt (removeFile temporary)
    throw e
  | .ok () =>
    match ← attempt (renameFile temporary path) with
    | .ok () => return
    | .error e =>
      let _ ← attempt (removeFile temporary)
      throw e

/-- Replaces a file by a content. -/
def replaceFile (path : String) (content : Bytes) : Action Fault Unit :=
  replaceWith path (pure ⟨content, none⟩)

end Jarwright.Machine
