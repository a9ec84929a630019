import Jarwright.Machine.Command
import Jarwright.Machine.Disk

/-!
# The world of a build

What a build meets and changes: a disk, programs that it runs, a server that it asks, a clock and
fresh names. Everything that is not in the hands of the build is one value, `Surroundings`, about
which nothing is assumed: programs and the server may answer in any way that depends on all that
happened before, and programs may change the disk.

`World` holds what has happened: the disk after each step, the commands that were run, the requests
that were made. An `Action` runs in surroundings and changes the world; when it fails, what it did
until then remains.
-/

namespace Jarwright.Machine

/-- A command that was run, and what came of it; nothing if it could not be started. -/
structure Call where
  command : Command
  execution : Option Execution
  deriving DecidableEq, Repr, Inhabited

/-- What a server answers. -/
inductive Reply where
  /-- There is no answer. -/
  | unreachable
  /-- The request is refused with a code. -/
  | refused (code : Nat)
  /-- A content, which may break off before its end. -/
  | content (body : Bytes) (complete : Bool)
  deriving DecidableEq, Repr, Inhabited

/-- What is not in the hands of a build. -/
structure Surroundings where
  /-- The directory that relative paths are seen from. -/
  directory : Place
  /-- Where temporary files are made. -/
  temporaries : String
  environment : String → Option String
  /-- What the clock shows at each reading, in milliseconds. -/
  clock : Nat → Nat
  /-- What comes of a command after those that were run before, the latest first. -/
  run : List Call → Command → Limits → Disk → Option Execution × Disk
  /-- The answer to a request after those that were made before, the latest first. -/
  serve : List String → String → Reply
  /-- What makes names of temporary files differ from those of other builds. -/
  mark : String
  /-- The names for temporary files and directories at each try. -/
  freshName : Nat → String
  /-- The second at which the directory at a place was changed last, after some steps, the latest
  first. A disk keeps no record of it. -/
  directoryTime : List Disk → Disk → Place → Nat := fun _ _ _ => clock 0 / 1000

/-- What has happened. -/
structure World where
  disk : Disk
  /-- The disk after each step, latest first. -/
  steps : List Disk
  /-- The commands, latest first. -/
  calls : List Call
  /-- The requests, latest first. -/
  requests : List String
  /-- How often the clock was read. -/
  readings : Nat
  /-- How many numbers were used for temporary files next to others. -/
  serial : Nat
  /-- How many names for temporary files were tried. -/
  tries : Nat

/-- The world before anything has happened. -/
def World.ofDisk (d : Disk) : World := ⟨d, [], [], [], 0, 0, 0⟩

/-- What can be done in the world. -/
abbrev Action (ε α : Type) : Type := ReaderT Surroundings (EStateM ε World) α

namespace Action

variable {ε ε' α β : Type}

/-- Runs an action. -/
def perform (x : Action ε α) (s : Surroundings) (w : World) : Except ε α × World :=
  match x s w with
  | .ok a w => (.ok a, w)
  | .error e w => (.error e, w)

/-- Words the fault of an action anew. -/
def mapFault (f : ε → ε') (x : Action ε α) : Action ε' α := fun s w =>
  match x s w with
  | .ok a w => .ok a w
  | .error e w => .error (f e) w

/-- Goes on after a fault. -/
def attempt (x : Action ε α) : Action ε' (Except ε α) := fun s w =>
  match x s w with
  | .ok a w => .ok (.ok a) w
  | .error e w => .ok (.error e) w

/-- Does something after an action, whether it failed or not. -/
def after (x : Action ε α) (cleanUp : Action ε Unit) : Action ε α := fun s w =>
  match x s w with
  | .ok a w =>
    match cleanUp s w with
    | .ok _ w => .ok a w
    | .error e w => .error e w
  | .error e w =>
    match cleanUp s w with
    | .ok _ w => .error e w
    | .error _ w => .error e w

/-- A result that needs no world, with its fault worded anew. -/
def orFail (f : ε → ε') (x : Except ε α) : Action ε' α := fun _ w =>
  match x with
  | .ok a => .ok a w
  | .error e => .error (f e) w

/-- What a disk shows. -/
def look (f : Place → Disk → α) : Action ε α := fun s w => .ok (f s.directory w.disk) w

/-- A step on the disk. -/
def step (f : Place → Disk → Except Fault Disk) : Action Fault Unit := fun s w =>
  match f s.directory w.disk with
  | .ok d => .ok () { w with disk := d, steps := d :: w.steps }
  | .error e => .error e w

/-- What the clock shows. -/
def now : Action ε Nat := fun s w => .ok (s.clock w.readings) { w with readings := w.readings + 1 }

end Action

/-! ## Files -/

open Machine.Action

/-- The second at which a file is written. -/
def writingTime (s : Surroundings) (w : World) : Nat := s.clock w.readings / 1000

/-- Whether a path leads to anything. -/
def holds {ε : Type} (path : String) : Action ε Bool := look fun p d => d.holds p path

/-- Whether a path leads to a file. -/
def isFile {ε : Type} (path : String) : Action ε Bool := look fun p d => d.isFile p path

/-- Whether a path leads to a directory. -/
def isDirectory {ε : Type} (path : String) : Action ε Bool := look fun p d => d.isDirectory p path

/-- The content of a file. -/
def readFile (path : String) : Action Fault Bytes := fun s w =>
  match w.disk.read s.directory path with
  | .ok content => .ok content w
  | .error e => .error e w

/-- The names in a directory. -/
def listDirectory (path : String) : Action Fault (List String) := fun s w =>
  match w.disk.list s.directory path with
  | .ok names => .ok names w
  | .error e => .error e w

/-- The second at which what a path leads to was changed last. -/
def World.changeTime? (w : World) (s : Surroundings) (path : String) : Option Nat :=
  match w.disk.locate s.directory path with
  | .ok p =>
    match w.disk.get? p with
    | some (.file _ written) => some written
    | some .directory => some (s.directoryTime w.steps w.disk p)
    | none => none
  | .error _ => none

/-- The second at which what a path leads to was changed last. -/
def changeTime? {ε : Type} (path : String) : Action ε (Option Nat) := fun s w =>
  .ok (w.changeTime? s path) w

/-- Writes a file. -/
def writeFile (path : String) (content : Bytes) : Action Fault Unit := fun s w =>
  step (fun p d => d.write p (writingTime s w) path content) s w

/-- Creates an empty file. -/
def createFile (path : String) : Action Fault Unit := fun s w =>
  step (fun p d => d.create p (writingTime s w) path) s w

/-- Removes a file. -/
def removeFile (path : String) : Action Fault Unit := step fun p d => d.remove p path

/-- Removes a directory and all that is in it. -/
def removeTree (path : String) : Action Fault Unit := step fun p d => d.removeTree p path

/-- Makes a directory. -/
def makeDirectory (path : String) : Action Fault Unit := step fun p d => d.makeDirectory p path

/-- Gives a file another name. -/
def renameFile (source target : String) : Action Fault Unit :=
  step fun p d => d.rename p source target

/-- Makes a directory and those above it. -/
def makeDirectories (path : String) : Action Fault Unit := fun s w =>
  let (d, steps, result) :=
    Disk.makeDirectories s.directory path ((Path.components path).length + 1) w.disk
  let w := { w with disk := d, steps := steps ++ w.steps }
  match result with
  | .ok () => .ok () w
  | .error e => .error e w

/-! ## Programs -/

/-- Why a command has no good end. -/
inductive CommandFault where
  /-- It could not be run. -/
  | notStarted (command : Command)
  /-- It failed, or took too long. -/
  | failed (command : Command) (outcome : Outcome)
  deriving DecidableEq, Repr, Inhabited

/-- Runs a command, however it ends. -/
def run (c : Command) (limits : Limits) : Action CommandFault Outcome := fun s w =>
  let (execution, d) := s.run w.calls c limits w.disk
  let w := { w with disk := d, steps := d :: w.steps, calls := ⟨c, execution⟩ :: w.calls }
  match execution with
  | some x => .ok (x.outcome limits) w
  | none => .error (.notStarted c) w

/-- Runs a command that has to succeed. -/
def runOrFail (c : Command) (limits : Limits) : Action CommandFault Outcome := do
  let o ← run c limits
  if o.isSuccess then return o else throw (.failed c o)

/-! ## Requests -/

/-- Asks the server. -/
def request {ε : Type} (url : String) : Action ε Reply := fun s w =>
  .ok (s.serve w.requests url) { w with requests := url :: w.requests }

end Jarwright.Machine
