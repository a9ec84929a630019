import Jarwright.Pipeline.Build
import Jarwright.Rehearsal.Stage

/-!
# Exercises

Small uses of the parts of a build, for rehearsals: selections of entries, rules by which entries
are given new contents, and bodies for temporary files and directories.
-/

namespace Jarwright.Rehearsal

open Machine Machine.Action

/-- A selection of names by how they begin, how they end, or what they are. -/
structure Selector where
  fronts : List String
  backs : List String
  names : List String
  /-- Whether all other names are selected instead. -/
  inverted : Bool
  deriving DecidableEq, Repr, Inhabited

/-- Whether a name is selected. -/
def Selector.accepts (s : Selector) (name : String) : Bool :=
  (s.fronts.any (fun x => Text.startsWith x.toList name.toList)
    || s.backs.any (fun x => Text.endsWith x.toList name.toList)
    || s.names.contains name) != s.inverted

/-- Why an exercise fails. -/
inductive Failure where
  | archive (cause : Archive.Fault)
  /-- A rule says that an entry is to fail. -/
  | scripted (name : String)
  deriving DecidableEq, Repr, Inhabited

/-- A rule by which files are given new contents: one fails, some are left out, and the others get
something behind them. -/
structure ContentRule where
  failing : Option String
  dropped : List String
  appended : Bytes
  deriving DecidableEq, Repr, Inhabited

/-- The new content of a file. -/
def ContentRule.content (r : ContentRule) (name : String) (old : Bytes) :
    Except Failure (Option Bytes) :=
  if r.failing = some name then .error (.scripted name)
  else if r.dropped.contains name then .ok none
  else .ok (some (old ++ r.appended))

/-- Makes an archive anew by a rule. The names are those of the files for which the rule was asked,
of which there are none when the archives cannot be opened. -/
def remakeByRule {ε : Type} (r : ContentRule) (source target : String) :
    Action ε (Except Failure Nat × List String) := do
  let names := match ← attempt (Archive.entryNames source) with
    | .ok names => names.filter (!Archive.Entry.isDirectoryName ·)
    | .error _ => []
  let result ← attempt (Archive.remakeEntries source target .archive r.content)
  let asked := match result with
    | .error (.archive _) => []
    | .error (.scripted name) => names.takeWhile (· != name) ++ [name]
    | .ok _ => names
  return (result, asked)

/-- How the body of an exercise ends. -/
inductive Manner where
  | plain
  /-- It removes what it was given. -/
  | deleting
  | failing
  deriving DecidableEq, Repr, Inhabited

/-- Does what a manner asks for. -/
def Manner.finish (m : Manner) (remove : Action Pipeline.Fault Unit) :
    Action Pipeline.Fault Unit :=
  match m with
  | .plain => pure ()
  | .deleting => remove
  | .failing => throw (.unknownVersion "t")

/-- Runs an action and counts the temporary files and directories that it left behind. -/
def countingLeft {δ ε α : Type} (x : Action ε α) : Action δ (Except ε α × Nat) := fun s w =>
  let (r, w') := perform x s w
  let left := (List.range' w.tries (w'.tries - w.tries)).filter fun i =>
    w'.disk.holds s.directory (Path.join s.temporaries ("anvil-" ++ s.freshName i))
  .ok (r, left.length) w'

/-- Whether fresh temporary files are empty. -/
def tryFiles (count : Nat) (m : Manner) : Action Pipeline.Fault (List Bool) :=
  Pipeline.withTemporaryFiles count fun paths => do
    let empty ← paths.mapM fun path => return (← Pipeline.readIfThere path) == some []
    m.finish (paths.forM fun path => Pipeline.discard (removeFile path))
    return empty

/-- What is below a path: nothing when it is not there. -/
def listPath {ε : Type} (path : String) : Action ε (List String) :=
  look fun p d => (d.locate p path).toOption.elim [] (listing d)

/-- What is in a fresh temporary directory after a file was written. -/
def tryDirectory (m : Manner) : Action Pipeline.Fault (List String) :=
  Pipeline.withTemporaryDirectory fun path => do
    Pipeline.discard (putFile (Path.join path "a/b/c") [] none)
    m.finish (Pipeline.discard (removeTree path))
    listPath path

/-- Gives an artifact that is there another time of storing, and whether it is there. -/
def redate (r : Store.Repository) (c : Store.Coordinate) (time : Nat) :
    Action Store.Fault Bool := do
  match ← r.metadata? c with
  | none => return false
  | some m =>
    let redated : Store.Metadata := { m with created := time }
    redated.save (c.sidecarPath r.root)
    return true

/-- A text in which the directories of a rehearsal are replaced by their names and temporary files
have no number. -/
def publish (s : String) : String :=
  let swap (old new : String) (cs : List Char) := Settings.replaceAll old.toList new.toList cs
  let named := String.ofList (swap "/$CWD" "$CWD" (swap "/$TMP" "$TMP" s.toList))
  match named.splitOn "/t/anvil-" with
  | [] => s
  | x :: xs =>
    x ++ String.join (xs.map fun y =>
      "/t/anvil-*" ++ String.ofList (y.toList.dropWhile Char.isDigit))

/-- A text in which the directory of a rehearsal stands for its name. -/
def unpublish (s : String) : String :=
  String.ofList (Settings.replaceAll "$TMP".toList "/$TMP".toList s.toList)

end Jarwright.Rehearsal
