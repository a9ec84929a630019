import Jarwright.Machine.World

/-!
# Scripted tools

To rehearse a build, tools can be given a script instead of being run: for each subcommand a list
of responses, of which the n-th call gets the n-th and the last one repeats. A response changes
files first and then writes output.

* `Tool.respond` finds the response to a call, `Response.perform` carries it out;
* `callsOf` lists the calls of a tool, as a log would.
-/

namespace Jarwright.Rehearsal

open Machine

/-- A change of files. Paths are seen from the directory of the rehearsal. -/
inductive Effect where
  /-- Makes a directory and those above it. -/
  | makeDirectory (path : String)
  /-- Removes a file, or a directory and all that is in it. -/
  | remove (path : String)
  | write (path content : String)
  /-- Copies a file into the directory that is the last argument of the call. -/
  | deliver (name source : String)
  deriving DecidableEq, Repr, Inhabited

/-- What a tool does at a call. -/
structure Response where
  effects : List Effect
  stdout : String
  stderr : String
  code : Nat
  deriving DecidableEq, Repr, Inhabited

/-- A tool and its responses by subcommand. A subcommand with the name of the file in its last
argument behind a colon goes before the subcommand alone. -/
structure Tool where
  name : String
  responses : List (String × List Response)
  deriving DecidableEq, Repr, Inhabited

/-- The disk, or the one before if a change failed. -/
def orElse (d : Disk) (changed : Except Fault Disk) : Disk :=
  match changed with
  | .ok d => d
  | .error _ => d

/-- Removes a file or a directory, if it is there. -/
def removeAny (root : Place) (path : String) (d : Disk) : Disk :=
  orElse (orElse d (d.remove root path)) ((orElse d (d.remove root path)).removeTree root path)

/-- Makes a change; what cannot be done is left. -/
def Effect.perform (root directory : Place) (last : String) (now : Nat) (d : Disk) :
    Effect → Disk
  | .makeDirectory path => (Disk.makeDirectories root path ((Path.components path).length + 1) d).1
  | .remove path => removeAny root path d
  | .write path content => orElse d (d.write root now path (Text.Utf8.ofString content))
  | .deliver name source =>
    match d.read root source with
    | .ok content => orElse d (d.write directory now (Path.join last name) content)
    | .error _ => d

/-- Does what a response says, and gives the execution that is seen. -/
def Response.perform (r : Response) (root directory : Place) (last : String) (now : Nat)
    (d : Disk) : Execution × Disk :=
  (.immediate ⟨.exited (r.code % 256), [Text.Utf8.ofString r.stdout],
      [Text.Utf8.ofString r.stderr]⟩,
    r.effects.foldl (fun d e => e.perform root directory last now d) d)

/-- The arguments behind the options in front of a subcommand. -/
def behindOptions : List String → List String
  | "-c" :: _ :: rest => behindOptions rest
  | arguments => arguments

/-- What stands behind the last slash. -/
def baseName (s : String) : String :=
  String.ofList (s.toList.reverse.takeWhile (· != '/')).reverse

namespace Tool

/-- The key of a call in the script. -/
def key (t : Tool) (arguments : List String) : String :=
  let sub := (behindOptions arguments).headD ""
  let long := sub ++ ":" ++ baseName (arguments.getLastD "")
  if t.responses.any (·.1 == long) then long else sub

/-- The response to a call after some others. -/
def respond (t : Tool) (before : List (List String)) (arguments : List String) : Response :=
  let k := t.key arguments
  let n := (before.filter fun a => t.key a == k).length
  match t.responses.lookup k with
  | none | some [] => ⟨[], "", "", 0⟩
  | some (r :: rs) => ((r :: rs)[n]?).getD ((r :: rs).getLastD r)

end Tool

/-- The calls of a program that was started, the earliest first. -/
def callsOf (program : String) (calls : List Call) : List Command :=
  ((calls.filter fun c => c.execution.isSome && c.command.program.shown == program).map
    (·.command)).reverse

/-- The arguments of a command as texts. -/
def argumentTexts (c : Command) : List String := c.arguments.map (·.shown)

end Jarwright.Rehearsal
