import Jarwright.Archive.File
import Jarwright.Pipeline.Decompiler
import Jarwright.Rehearsal.Script
import Jarwright.Rehearsal.Shell
import Jarwright.Source.Layout

/-!
# Rehearsals

The surroundings of a rehearsal: scripted tools on the search path, a few programs that every
machine has, a server that answers nothing, a clock that stands still, and a decompiler that gives
what it is told to.

* `Scene.surroundings` are the surroundings, `Scene.openingDisk` the disk at the start;
* `Scene.decompiler` and `formatter` stand in for the tools of a build.
-/

namespace Jarwright.Rehearsal

open Machine Machine.Action

/-- What a rehearsed decompiler produces. -/
inductive Production where
  | entries (entries : List Archive.Entry)
  /-- Nothing is written. -/
  | missing
  /-- Something that is no archive. -/
  | garbage
  /-- The decompiler fails. -/
  | failure
  /-- A copy of the input. -/
  | copy
  deriving DecidableEq, Repr, Inhabited

/-- What a rehearsal begins with. -/
structure Scene where
  /-- The directory of the rehearsal, by the names on the way to it. -/
  root : Place
  /-- The directory that the program itself was started in. -/
  directory : Place
  /-- What the clock shows, in milliseconds. -/
  time : Nat
  environment : List (String × String)
  tools : List Tool
  production : Production

/-- The path of a place. -/
def pathOf (p : Place) : String := "/" ++ "/".intercalate p

/-- The programs that are there on every machine, by their paths. -/
def commonPrograms : List String :=
  ["/bin/sh", "/bin/echo", "/bin/true", "/bin/false", "/bin/sleep", "/bin/pwd", "/bin/cat"]

/-- The name under which a rehearsed decompiler is noted among the commands. -/
def decompilerName : String := "decompiler"

namespace Scene

/-- The tool that a program is. -/
def tool? (scene : Scene) (program : String) : Option Tool :=
  scene.tools.find? fun t =>
    t.name == program || pathOf (scene.root ++ ["tools", "bin", t.name]) == program

/-- The directory of temporary files. -/
def temporaries (scene : Scene) : String := pathOf (scene.root ++ ["t"])

/-- The variables that programs find set. A directory that is named like a variable is its value,
so that a path has the same meaning in a script as elsewhere. -/
def programValues (scene : Scene) (directory : Place) : List (String × String) :=
  let named := (scene.root ++ scene.directory).filter (·.startsWith "$")
  named.map (fun name => ((name.drop 1).toString, name)) ++
    [("PATH", pathOf (scene.root ++ ["tools", "bin"])), ("PWD", pathOf directory)]

/-- Runs a program that is there on every machine. -/
def runCommon (scene : Scene) (directory : Place) (program : String) (arguments : List String)
    (limits : Limits) : Execution :=
  let values := scene.programValues directory
  match program, arguments with
  | "/bin/sh", "-c" :: script :: rest =>
    Shell.execution (rest.headD program) (rest.drop 1) values (pathOf directory) script limits
  | "/bin/sh", _ => .immediate ⟨.exited 0, [], []⟩
  | _, _ =>
    let quoted := (program :: arguments).map fun a =>
      "'" ++ String.intercalate "'\"'\"'" ((Text.splitOn '\'' a.toList).map String.ofList) ++ "'"
    Shell.execution "/bin/sh" [] values (pathOf directory) ("exec " ++ " ".intercalate quoted)
      limits

/-- What comes of a command. It is not started where its directory or its program is missing. -/
def run (scene : Scene) (before : List Call) (c : Command) (limits : Limits) (d : Disk) :
    Option Execution × Disk :=
  let program := c.program.shown
  let arguments := argumentTexts c
  match d.locate scene.directory c.directory.shown with
  | .error _ => (none, d)
  | .ok directory =>
    if d.get? directory ≠ some .directory then (none, d)
    else match scene.tool? program with
      | some t =>
        let r := t.respond ((callsOf program before).map argumentTexts) arguments
        let (x, d) := r.perform scene.root directory (arguments.getLastD "") (scene.time / 1000) d
        (some x, d)
      | none =>
        if program = decompilerName then (some (.immediate ⟨.exited 0, [], []⟩), d)
        else if commonPrograms.contains program then
          (some (scene.runCommon directory program arguments limits), d)
        else (none, d)

/-- The surroundings of a rehearsal. -/
def surroundings (scene : Scene) : Surroundings where
  directory := scene.directory
  temporaries := scene.temporaries
  environment name := scene.environment.lookup name
  clock _ := scene.time
  run := scene.run
  serve _ _ := .unreachable
  mark := "0"
  freshName n := String.ofList (Text.decimal n)

/-- The disk with the directories of a rehearsal and of the machine. -/
def openingDisk (scene : Scene) : Disk :=
  [scene.root ++ ["t"], scene.directory, ["bin"], ["tmp"]].foldl (fun d p =>
    (Disk.makeDirectories [] (pathOf p) (p.length + 1) d).1) .empty

/-- The path at which a rehearsed decompiler leaves its sources. -/
def sourcesPath (directory : String) : String := Path.join directory "sources.jar"

/-- The rehearsed decompiler, which notes the names of the entries that it is given. -/
def decompiler (scene : Scene) : Pipeline.Decompiler := fun input directory => do
  let names ← mapFault .archive (Archive.entryNames input)
  let _ ← mapFault .command (Machine.run (.ofTexts decompilerName names directory) {})
  let output := sourcesPath directory
  let write (content : Bytes) : Action Pipeline.Fault Unit :=
    mapFault (fun _ => .file output) (writeFile output content)
  match scene.production with
  | .entries entries => write (Archive.Zip.encode entries)
  | .missing => pure ()
  | .garbage => write (Text.Utf8.ofString "not a zip")
  | .failure => throw (.noDecompilerOutput directory)
  | .copy => write (← mapFault (fun _ => .file input) (readFile input))
  return output

end Scene

/-! ## Looking at the outcome -/

/-- Puts a file on the disk, with the directories above it, as written at some second or now. -/
def putFile (path : String) (content : Bytes) (written : Option Nat) :
    Action Machine.Fault Unit := do
  match Path.parent? path with
  | some parent => makeDirectories parent
  | none => pure ()
  match written with
  | some second => Action.step fun p d => d.write p second path content
  | none => writeFile path content

/-- The paths of all files below a place, and those of empty directories with a slash behind them,
in order. -/
def listing (d : Disk) (p : Place) : List String :=
  let inside := d.nodes.filter fun e => p.isPrefixOf e.1 && p.length < e.1.length
  let shown := inside.filterMap fun (q, node) =>
    let name := "/".intercalate (q.drop p.length)
    match node with
    | .file .. => some name
    | .directory => if (d.below q).isEmpty then some (name ++ "/") else none
  shown.mergeSort fun a b => decide (a ≤ b)

/-- The calls of a program, each with the directory in which it was run. -/
def callLog (scene : Scene) (program : String) (w : World) : List (List String) :=
  (callsOf program w.calls).map fun c =>
    let directory := match w.disk.locate scene.directory c.directory.shown with
      | .ok p => pathOf p
      | .error _ => c.directory.shown
    directory :: argumentTexts c

/-- How a rehearsed formatter behaves. -/
inductive Formatting where
  | standard
  | failing
  /-- Only sources in which this text stands are refused. -/
  | refusing (mark : String)
  deriving DecidableEq, Repr, Inhabited

/-- Whether a text stands in another. -/
def occurs (part : List Char) : List Char → Bool
  | [] => part.isEmpty
  | c :: cs => Text.startsWith part (c :: cs) || occurs part cs

/-- The rehearsed formatter. -/
def formatter : Formatting → Pipeline.Formatter
  | .standard => fun source => some (Source.layout source)
  | .failing => fun _ => none
  | .refusing mark => fun source =>
    if occurs mark.toList source then none else some (Source.layout source)

end Jarwright.Rehearsal
