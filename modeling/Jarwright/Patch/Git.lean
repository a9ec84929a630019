import Jarwright.Machine.World
import Jarwright.Text.Number
import Jarwright.Text.Quoted

/-!
# Git

Changes to the sources are kept in a git repository. Every command names the author of commits and
asks for no signature, so that nothing depends on how git is set up.

* `Git.run` gives the output of a command that has to succeed, `Git.runAnyway` all there is to know;
* `Git.distance` and `Git.hasChanges` ask about the repository.
-/

namespace Jarwright.Patch

open Machine Machine.Action

/-- Why patches cannot be worked with. -/
inductive Fault where
  | gitUnavailable
  | command (cause : CommandFault)
  | file (path : String)
  /-- There are changes that were not committed. -/
  | dirty (path : String)
  /-- There are more commits than patches. -/
  | unexported (commits patches : Nat)
  /-- A patch does not apply; the rest has not been tried. -/
  | conflict (patch : String) (remaining : List String) (message : String)
  /-- Git answered something else than was asked for. -/
  | unexpected (command output : String)
  /-- No patch is being applied. -/
  | nothingPending
  deriving DecidableEq, Repr, Inhabited

/-- The wording of a fault. -/
def Fault.message : Fault → String
  | .gitUnavailable => "could not locate a git installation"
  | .command (.notStarted c) => "failed to run `" ++ c.text ++ "`"
  | .command (.failed c o) => o.report c
  | .file path => s!"failed to access {path}"
  | .dirty path => s!"the repository at {path} has uncommitted changes; "
      ++ "generate patches before rebuilding or pass force"
  | .unexported commits patches =>
    s!"{commits} commits since the baseline but only {patches} patch files; "
      ++ "generate patches before rebuilding or pass force"
  | .conflict patch _ message => s!"failed to apply patch {patch}: {message}"
  | .unexpected asked output => "unexpected output from `" ++ asked ++ "`: " ++ Text.quote output
  | .nothingPending => "no patch application is in progress"

/-- Who commits. -/
structure Author where
  name : String := "Anvil"
  email : String := "anvil@localhost"
  deriving DecidableEq, Repr, Inhabited

/-- A working tree and the way in which git is run in it. -/
structure Git where
  root : String
  author : Author := {}
  /-- When to give up on a command, in milliseconds. -/
  timeout : Option Nat := none
  deriving DecidableEq, Repr, Inhabited

/-- The output of a command without the blanks behind it. -/
def trimmedOutput (s : String) : String := String.ofList (Text.trimEnd s.toList)

namespace Git

/-- The version of git. -/
def version : Action Fault String := do
  let o ← mapFault (fun _ => .gitUnavailable)
    (runOrFail (.ofTexts "git" ["--version"] ".") {})
  return String.ofList (Text.trim o.output.stdout.toList)

/-- The command with these arguments. -/
def command (g : Git) (arguments : List String) : Command :=
  .ofTexts "git" (["-c", s!"user.name={g.author.name}", "-c", s!"user.email={g.author.email}",
    "-c", "commit.gpgsign=false"] ++ arguments) g.root

/-- What a command is allowed. -/
def limits (g : Git) : Limits := { timeout := g.timeout }

/-- Runs a command that has to succeed and gives its output. -/
def run (g : Git) (arguments : List String) : Action Fault String := do
  let o ← mapFault .command (runOrFail (g.command arguments) g.limits)
  return trimmedOutput o.output.stdout

/-- Runs a command however it ends. -/
def runAnyway (g : Git) (arguments : List String) : Action Fault Outcome :=
  mapFault .command (Machine.run (g.command arguments) g.limits)

/-- The place where the repository is kept. -/
def directory (g : Git) : String := Path.join g.root ".git"

/-- Whether there is a repository. -/
def isRepository {ε : Type} (g : Git) : Action ε Bool := holds g.directory

/-- The commit that a name stands for. -/
def commitOf (g : Git) (revision : String) : Action Fault String :=
  g.run ["rev-parse", "--verify", revision]

/-- Whether there are changes that were not committed. -/
def hasChanges (g : Git) : Action Fault Bool := do
  return !(← g.run ["status", "--porcelain"]).isEmpty

/-- How many commits lead from one revision to another. -/
def distance (g : Git) (old new : String) : Action Fault Nat := do
  let range := s!"{old}..{new}"
  let output ← g.run ["rev-list", "--count", range]
  match Text.unsigned UInt64.size (Text.trim output.toList) with
  | .ok n => return n
  | .error _ => throw (.unexpected s!"git rev-list --count {range}" output)

end Git

end Jarwright.Patch
