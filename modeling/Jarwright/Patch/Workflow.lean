import Jarwright.Patch.Git

/-!
# The patch workflow

The sources begin as one commit, the baseline, to which a branch points. Changes are commits on top
of it and are kept as numbered patch files. Building again goes back to the baseline and applies
the patches.

* `Workflow.state` asks git in which state the sources are;
* `Workflow.makeBaseline` makes the baseline, `Workflow.writePatches` writes the patch files;
* `Workflow.ensureSafe` refuses to go on where work would be lost, and `Workflow.apply` goes back to
  the baseline and applies the patches, after that check;
* `Workflow.resolve` settles a patch that did not apply.
-/

namespace Jarwright.Patch

open Machine Machine.Action

/-- The branch of the baseline. -/
def baselineBranch : String := "upstream"

/-- The message of the baseline. -/
def baselineTitle : String := "Added decompiled sources."

/-- In which state the sources are. -/
inductive State where
  /-- There is no repository. -/
  | uninitialized
  /-- There is the baseline and nothing else. -/
  | baseline
  /-- There are commits on top of the baseline. -/
  | patched
  /-- There are changes that were not committed. -/
  | dirty
  /-- A patch did not apply and waits for being settled. -/
  | applying
  deriving DecidableEq, Repr, Inhabited

/-- The name of a state. -/
def State.name : State → String
  | .uninitialized => "uninitialized"
  | .baseline => "baseline"
  | .patched => "patched"
  | .dirty => "dirty"
  | .applying => "applying"

/-- How to settle a patch that did not apply. -/
inductive Resolution where
  /-- It was put right; commit it. -/
  | proceed
  /-- Leave it out. -/
  | skip
  /-- Go back to before it. -/
  | abort
  deriving DecidableEq, Repr, Inhabited

/-- The option of a resolution. -/
def Resolution.option : Resolution → String
  | .proceed => "--continue"
  | .skip => "--skip"
  | .abort => "--abort"

/-- A working tree and the directory of its patches. -/
structure Workflow where
  git : Git
  patchDirectory : String
  /-- Whether work may be lost. -/
  force : Bool := false
  deriving DecidableEq, Repr, Inhabited

namespace Workflow

/-- The directory of the sources. -/
def sourceDirectory (w : Workflow) : String := w.git.root

/-- In which state the sources are. -/
def state (w : Workflow) : Action Fault State := do
  if !(← w.git.isRepository) then return .uninitialized
  if ← holds (Path.join w.git.directory "rebase-apply") then return .applying
  if ← w.git.hasChanges then return .dirty
  let head ← w.git.commitOf "HEAD"
  let base ← w.git.commitOf baselineBranch
  return if head = base then .baseline else .patched

/-! ## The baseline -/

/-- Removes what a failed baseline left behind: the directory, if it was made for it, or the
repository in it. -/
def discardBaseline {ε : Type} (w : Workflow) (madeDirectory : Bool) : Action ε Unit := do
  let target := if madeDirectory then w.sourceDirectory else w.git.directory
  if ← holds target then
    let _ ← attempt (removeTree target)

/-- Makes a repository of what an action puts into the directory of the sources, and whether it
did: a repository that is there is left alone. -/
def makeBaseline {ε : Type} (w : Workflow) (wrap : Fault → ε) (populate : String → Action ε Unit) :
    Action ε Bool := do
  if ← w.git.isRepository then return false
  let directory := w.sourceDirectory
  let madeDirectory := !(← holds directory)
  mapFault (fun _ => wrap (.file directory)) (makeDirectories directory)
  let git (arguments : List String) : Action ε Unit := do
    let _ ← mapFault wrap (w.git.run arguments)
  let made ← attempt do
    git ["init"]
    populate directory
    git ["add", "-A"]
    git ["commit", "-q", "-m", baselineTitle]
    git ["branch", baselineBranch]
  match made with
  | .ok () => return true
  | .error e =>
    w.discardBaseline madeDirectory
    throw e

/-! ## Patch files -/

/-- The patch files in the order in which they apply. -/
def patches (w : Workflow) : Action Fault (List String) := do
  if !(← isDirectory w.patchDirectory) then return []
  let names ← mapFault (fun _ => .file w.patchDirectory) (listDirectory w.patchDirectory)
  let candidates := (names.map (Path.join w.patchDirectory)).filter (Path.ending? · == some "patch")
  let files ← candidates.filterM fun path => isFile path
  return files.mergeSort fun a b => decide (a ≤ b)

/-- Refuses to go on where going back to the baseline would lose work: changes that were not
committed, a patch that waits for being settled, or commits that were not written as patches. -/
def ensureSafe (w : Workflow) : Action Fault Unit := do
  match ← w.state with
  | .uninitialized => return
  | .dirty | .applying => if !w.force then throw (.dirty w.sourceDirectory)
  | .baseline | .patched => pure ()
  let commits ← w.git.distance baselineBranch "HEAD"
  let patches := (← w.patches).length
  if patches < commits ∧ !w.force then throw (.unexported commits patches)

/-- Applies patches one after the other, until one does not apply. -/
def applySeries (w : Workflow) : List String → Action Fault Unit
  | [] => return
  | patch :: rest => do
    let o ← w.git.runAnyway ["am", "--ignore-whitespace", "--3way", patch]
    if o.status.isSuccess then applySeries w rest
    else throw (.conflict patch rest (trimmedOutput o.output.stderr))

/-- Goes back to the baseline and applies all patches. Without a directory of patches there is
nothing to do. -/
def apply (w : Workflow) : Action Fault (List String) := do
  if !(← holds w.patchDirectory) then return []
  w.ensureSafe
  let _ ← w.git.runAnyway ["am", "--abort"]
  let _ ← w.git.run ["reset", "--hard", "-q", baselineBranch]
  let patches ← w.patches
  w.applySeries patches
  return patches

/-- Settles a patch that did not apply, and gives the state after that. -/
def resolve (w : Workflow) (r : Resolution) : Action Fault State := do
  if (← w.state) ≠ .applying then throw .nothingPending
  let _ ← w.git.run ["am", r.option]
  w.state

/-- Writes one patch file for each commit on top of the baseline, in the place of those that are
there. -/
def writePatches (w : Workflow) : Action Fault (List String) := do
  mapFault (fun _ => .file w.patchDirectory) (makeDirectories w.patchDirectory)
  for patch in ← w.patches do
    mapFault (fun _ => .file patch) (removeFile patch)
  let _ ← w.state
  let _ ← w.git.run ["format-patch", "--minimal", "--no-stat", "-N", "-o", w.patchDirectory,
    baselineBranch]
  w.patches

end Workflow

end Jarwright.Patch
