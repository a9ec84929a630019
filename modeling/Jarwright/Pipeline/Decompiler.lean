import Jarwright.Pipeline.Fault

/-!
# Decompilers

A decompiler turns an archive of classes into an archive of sources. The usual one is a program on
the virtual machine that writes into a directory.
-/

namespace Jarwright.Pipeline

open Machine Machine.Action

/-- Takes the path of an archive of classes and a directory to write into, and gives the path of
the archive of sources. -/
abbrev Decompiler : Type := String → String → Action Fault String

/-- Gives a source file another layout, unless it cannot. -/
abbrev Formatter : Type := List Char → Option (List Char)

/-- A decompiler on the virtual machine. -/
structure JarDecompiler where
  java : String
  jar : String
  deriving DecidableEq, Repr, Inhabited

namespace JarDecompiler

/-- The decompiler of the settings. -/
def ofSettings (s : Settings.Decompile) : Except Settings.Fault JarDecompiler :=
  match s.jar with
  | some jar => .ok ⟨s.java, jar⟩
  | none => .error (.missingValue "decompile.decompiler_jar")

/-- The options that the decompiler is run with. -/
def options : List String :=
  ["-din=1", "-rbr=0", "-rsy=1", "-dgs=1", "-asc=1", "-log=ERROR"]

/-- The command that decompiles an archive into a directory. -/
def command (d : JarDecompiler) (input directory : String) : Command :=
  .ofTexts d.java (["-jar", d.jar] ++ options ++ [input, directory]) directory

/-- The first file in a directory. -/
def leastFile? (directory : String) : Action Fault (Option String) := do
  let names ← mapFault (fun _ => .file directory) (listDirectory directory)
  let files ← (names.map (Path.join directory)).filterM fun path => isFile path
  return (files.mergeSort fun a b => decide (a ≤ b)).head?

/-- Decompiles an archive. The sources have the name of the archive, or else they are the first
file that was written. -/
def decompile (d : JarDecompiler) : Decompiler := fun input directory => do
  let _ ← mapFault .command (runOrFail (d.command input directory) {})
  match (Path.fileName? input).map (Path.join directory) with
  | some path => if ← isFile path then return path
  | none => pure ()
  match ← leastFile? directory with
  | some path => return path
  | none => throw (.noDecompilerOutput directory)

end JarDecompiler

end Jarwright.Pipeline
