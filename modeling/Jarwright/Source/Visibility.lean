import Jarwright.Text.Quoted

/-!
# Visibility

Who may use a declaration. Three of the four levels have a keyword, and a declaration without one
belongs to its package.

* `Visibility.keyword?` and `Visibility.ofKeyword?` relate levels and keywords;
* `Visibility.parse` reads the name of a level in any case of letters.
-/

namespace Jarwright.Source

/-- The levels of visibility. -/
inductive Visibility where
  /-- Everyone. -/
  | open
  /-- The package and heirs elsewhere. -/
  | family
  /-- The package only; there is no keyword for it. -/
  | package
  /-- The declaring file's outermost type only. -/
  | closed
  deriving DecidableEq, Repr, Inhabited

namespace Visibility

/-- The keyword of a level. -/
def keyword? : Visibility → Option String
  | .open => some "public"
  | .family => some "protected"
  | .package => none
  | .closed => some "private"

/-- The level of a keyword. -/
def ofKeyword? (s : String) : Option Visibility :=
  if s = "public" then some .open
  else if s = "protected" then some .family
  else if s = "private" then some .closed
  else none

theorem ofKeyword?_keyword? (v : Visibility) : v.keyword?.bind ofKeyword? =
    if v = .package then none else some v := by
  cases v <;> simp [keyword?, ofKeyword?]

/-- The name of a level. -/
def name (v : Visibility) : String := v.keyword?.getD "package-private"

/-- The level of a name; capital letters of ASCII count as small ones. -/
def parse? (s : String) : Option Visibility :=
  let lower := String.ofList (s.toList.map Char.toLower)
  if lower = "package-private" ∨ lower = "package_private" ∨ lower = "default" then some .package
  else ofKeyword? lower

/-- What is said about a name of no level. -/
def unknownMessage (s : String) : String :=
  "unknown visibility " ++ Text.quote s
    ++ " (expected public, protected, private or package-private)"

end Visibility

end Jarwright.Source
