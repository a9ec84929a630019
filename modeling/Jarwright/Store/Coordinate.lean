import Jarwright.Path
import Jarwright.Text.Quoted

/-!
# Coordinates of artifacts

A coordinate names one product of a build: `group:artifact:version:kind`, or
`group:artifact:version:kind:classifier`. Products of the same inputs have the same coordinate.

* `Coordinate.parse` and `Coordinate.text` are the two directions of that form;
* `Coordinate.relativePath` is where a repository keeps the artifact, seen from its root.
-/

namespace Jarwright.Store

/-- The name of an artifact. -/
structure Coordinate where
  group : String
  artifact : String
  version : String
  /-- The ending of the artifact's file. -/
  kind : String
  classifier : Option String
  deriving DecidableEq, Repr, Inhabited

namespace Coordinate

/-- The components in order. -/
def components (c : Coordinate) : List String :=
  [c.group, c.artifact, c.version, c.kind] ++ c.classifier.toList

/-- The components with colons between them. -/
def text (c : Coordinate) : String := ":".intercalate c.components

/-- What is wrong with a text that names no artifact. -/
inductive Flaw where
  | wrongCount | emptyComponent | malformedGroup | separator
  deriving DecidableEq, Repr, Inhabited

/-- The wording of a flaw. -/
def Flaw.message : Flaw → String
  | .wrongCount => "expected group:artifactId:version:type[:classifier]"
  | .emptyComponent => "empty component"
  | .malformedGroup => "malformed group"
  | .separator => "path separator in component"

/-- What is said of a text with a flaw. -/
def Flaw.report (text : String) (flaw : Flaw) : String :=
  s!"invalid artifact coordinate {Text.quote text}: {flaw.message}"

/-- The names of a group, from the outermost on. -/
def groupNames (group : String) : List String :=
  (Text.splitOn '.' group.toList).map String.ofList

/-- Whether a group has an empty name in it, or one that leads upwards. -/
def isMalformedGroup (group : String) : Bool :=
  (groupNames group).any fun name => name.isEmpty || name == ".."

/-- Whether a component holds a character that separates names in paths. -/
def hasSeparator (component : String) : Bool :=
  component.toList.any fun c => c == '/' || c == '\\'

/-- The coordinate that a text spells. -/
def parse (s : String) : Except Flaw Coordinate :=
  let parts := (Text.splitOn ':' s.toList).map String.ofList
  match parts with
  | group :: artifact :: version :: kind :: rest =>
    if 1 < rest.length then .error .wrongCount
    else if parts.any (·.isEmpty) then .error .emptyComponent
    else if isMalformedGroup group then .error .malformedGroup
    else if (artifact :: version :: kind :: rest).any hasSeparator then .error .separator
    else .ok ⟨group, artifact, version, kind, rest.head?⟩
  | _ => .error .wrongCount

/-- Whether an artifact is only valid for a while. -/
def isSnapshot (c : Coordinate) : Bool := Text.endsWith "-SNAPSHOT".toList c.version.toList

/-- The name of the artifact's file. -/
def fileName (c : Coordinate) : String :=
  "-".intercalate ([c.artifact, c.version] ++ c.classifier.toList) ++ "." ++ c.kind

/-- Where a repository keeps the artifact: in a directory for each name of the group, one for the
artifact and one for the version. -/
def relativePath (c : Coordinate) : String :=
  (groupNames c.group ++ [c.artifact, c.version, c.fileName]).foldl Path.join ""

/-- Coordinates are ordered component by component; one without a classifier comes first. -/
def compare (a b : Coordinate) : Ordering :=
  (((Ord.compare a.group b.group).then (Ord.compare a.artifact b.artifact)).then
    ((Ord.compare a.version b.version).then (Ord.compare a.kind b.kind))).then
    (match a.classifier, b.classifier with
      | none, none => .eq
      | none, some _ => .lt
      | some _, none => .gt
      | some x, some y => Ord.compare x y)

instance : Ord Coordinate := ⟨compare⟩

/-- Coordinates in their order. -/
def sort (cs : List Coordinate) : List Coordinate :=
  cs.mergeSort fun a b => compare a b != .gt

end Coordinate

end Jarwright.Store
