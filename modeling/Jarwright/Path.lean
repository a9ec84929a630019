import Jarwright.Text.Blank

/-!
# Paths

A path is a text in which slashes separate names. Empty names and dots say nothing, except a dot at
the start of a path that does not begin at the root.

* `Path.join` gives the path of something seen from a base; a path from the root stays as it is;
* `Path.components` lists the names that count;
* `Path.parent?` drops the last of them, `Path.fileName?` and `Path.ending?` look at it.
-/

namespace Jarwright.Path

/-- Whether a path begins at the root. -/
def isAbsolute (p : String) : Bool := p.toList.head? == some '/'

/-- A path seen from a base. -/
def join (base p : String) : String :=
  if isAbsolute p then p
  else match base.toList.getLast? with
    | none => p
    | some c => if c = '/' then base ++ p else base ++ "/" ++ p

/-- What stands between the slashes of a path. -/
def segments (p : String) : List (List Char) := Text.splitOn '/' p.toList

/-- The segments that count, each with its place among all. -/
def places (p : String) : List (List Char × Nat) :=
  (segments p).zipIdx.filter fun (s, i) => s != [] && (s != ['.'] || i == 0)

/-- The names that count. -/
def components (p : String) : List String := (places p).map fun (s, _) => String.ofList s

/-- The path of some segments. -/
def ofSegments (ss : List (List Char)) : String := String.ofList (['/'].intercalate ss)

/-- The path without its last component; what has no component has no parent. -/
def parent? (p : String) : Option String :=
  match (places p).reverse with
  | [] => none
  | [_] => some (if isAbsolute p then "/" else "")
  | _ :: (_, i) :: _ => some (ofSegments ((segments p).take (i + 1)))

/-- The last component, if it is the name of something. -/
def fileName? (p : String) : Option String :=
  match (components p).getLast? with
  | some "." => none
  | some ".." => none
  | last => last

/-- What stands behind the last dot of the file name; a dot in front makes no ending. -/
def ending? (p : String) : Option String := do
  let name ← fileName? p
  let back := name.toList.reverse
  let dotted := back.dropWhile (· != '.')
  if dotted.length ≤ 1 then none
  else some (String.ofList (back.takeWhile (· != '.')).reverse)

end Jarwright.Path
