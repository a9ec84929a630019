import Jarwright.Machine.Replacement
import Jarwright.Pipeline.Fault

/-!
# Temporary files

Files and directories that are there for one action and are removed after it, however it ends.

* `withTemporaryFiles` and `withTemporaryDirectory` run an action on fresh ones.
-/

namespace Jarwright.Pipeline

open Machine Machine.Action

/-- A name that has not been tried yet. -/
def nextName {ε : Type} : Action ε String := fun s w =>
  .ok (Path.join s.temporaries ("anvil-" ++ s.freshName w.tries)) { w with tries := w.tries + 1 }

/-- Makes something under the first free name. -/
def makeFresh (make : String → Action Machine.Fault Unit) : Nat → Action Fault String
  | 0 => do throw (.file (← read).temporaries)
  | n + 1 => do
    let path ← nextName
    match ← attempt (make path) with
    | .ok () => return path
    | .error .alreadyExists => makeFresh make n
    | .error _ => throw (.file (← read).temporaries)

/-- Removes something, if that is possible. -/
def discard (remove : Action Machine.Fault Unit) : Action Fault Unit := do
  let _ ← attempt remove

/-- Runs an action with `count` fresh empty files, behind those that are there already. -/
def withMoreFiles {α : Type} (body : List String → Action Fault α) (paths : List String) :
    Nat → Action Fault α
  | 0 => body paths
  | n + 1 => do
    let path ← makeFresh createFile (← nameBound)
    after (withMoreFiles body (paths ++ [path]) n) (discard (removeFile path))

/-- Runs an action with fresh empty files. -/
def withTemporaryFiles {α : Type} (count : Nat) (body : List String → Action Fault α) :
    Action Fault α :=
  withMoreFiles body [] count

/-- Runs an action with a fresh directory. -/
def withTemporaryDirectory {α : Type} (body : String → Action Fault α) : Action Fault α := do
  let path ← makeFresh makeDirectory (← nameBound)
  after (body path) (discard (removeTree path))

end Jarwright.Pipeline
