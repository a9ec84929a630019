import Jarwright.Source.Grammar
import Jarwright.Source.Visibility

/-!
# Declarations of a source file

What a file declares: its types with their fields, methods and nested types, and for each of them
where its visibility stands. Nothing inside methods, initializers and enumeration constants is
declared. Offsets count characters of the file.

* `Modifiers.ofParts` finds the visibility of a declaration, or the place where it would go;
* `Unit.scan?` reads a file, and fails if it breaks the grammar anywhere.
-/

namespace Jarwright.Source

/-- A visibility keyword and the characters it takes. -/
structure Keyword where
  visibility : Visibility
  start : Nat
  stop : Nat
  deriving DecidableEq, Repr, Inhabited

/-- The visibility of a declaration. -/
structure Modifiers where
  keyword : Option Keyword
  /-- Where a keyword goes if there is none. -/
  insertAt : Nat
  deriving DecidableEq, Repr, Inhabited

/-- The level in force. -/
def Modifiers.visibility (m : Modifiers) : Visibility :=
  (m.keyword.map (·.visibility)).getD .package

/-- Variables that share their modifiers. -/
structure FieldDeclaration where
  names : List String
  modifiers : Modifiers
  deriving Repr, Inhabited

/-- A method or a constructor. -/
structure MethodDeclaration where
  name : String
  isConstructor : Bool
  modifiers : Modifiers
  deriving Repr, Inhabited

/-- A type with its members. -/
structure TypeDeclaration where
  kind : TypeKind
  name : String
  /-- The name behind those of the package and the types around it. -/
  qualifiedName : String
  modifiers : Modifiers
  fields : List FieldDeclaration
  methods : List MethodDeclaration
  types : List TypeDeclaration
  deriving Repr, Inhabited

/-- A source file. -/
structure Unit where
  package : Option String
  types : List TypeDeclaration
  deriving Repr, Inhabited

/-! ## Reading the parts -/

/-- The tokens of a forest, in order. -/
def tokensOf : List (Node Part) → List Token
  | [] => []
  | .leaf t :: ns => t :: tokensOf ns
  | .branch _ cs :: ns => tokensOf cs ++ tokensOf ns

/-- The children of the first branch with a label. -/
def partOf? (l : Part) (ns : List (Node Part)) : Option (List (Node Part)) :=
  ns.findSome? fun
    | .branch l' cs => if l' = l then some cs else none
    | .leaf _ => none

/-- The text of a branch that is one name. -/
def nameIn? (ns : List (Node Part)) : Option String :=
  (partOf? .name ns).bind fun cs => (tokensOf cs).head?.map (·.text)

/-- All names that stand directly in a declaration. -/
def namesIn (ns : List (Node Part)) : List String :=
  ns.filterMap fun
    | .branch .name cs => (tokensOf cs).head?.map (·.text)
    | _ => none

/-- The words among modifiers, without markers. -/
def modifierTokens (ns : List (Node Part)) : List Token :=
  ns.filterMap fun
    | .leaf t => some t
    | .branch .. => none

/-- The visibility of the declaration with these parts. A keyword goes in front of the first of the
other modifiers; behind markers alone it goes in front of what follows them, comments included. -/
def Modifiers.ofParts (ns : List (Node Part)) : Modifiers :=
  match ns with
  | .branch .modifiers ms :: rest =>
    let words := modifierTokens ms
    let keyword := words.findSome? fun t =>
      (Visibility.ofKeyword? t.text).map fun v => ⟨v, t.start, t.stop⟩
    let next := ((tokensOf rest).head?.map (·.lead)).getD 0
    ⟨keyword, (words.head?.map (·.start)).getD next⟩
  | ns => ⟨none, ((tokensOf ns).head?.map (·.start)).getD 0⟩

/-- The fields among the members of a body. -/
def fieldsOf (ns : List (Node Part)) : List FieldDeclaration :=
  ns.filterMap fun
    | .branch .field cs => some ⟨namesIn cs, .ofParts cs⟩
    | _ => none

/-- The methods and constructors among the members of a body. -/
def methodsOf (ns : List (Node Part)) : List MethodDeclaration :=
  ns.filterMap fun
    | .branch .method cs => (nameIn? cs).map fun name => ⟨name, false, .ofParts cs⟩
    | .branch .constructor cs => (nameIn? cs).map fun name => ⟨name, true, .ofParts cs⟩
    | _ => none

mutual

/-- The type that a branch declares inside `owner`, whose name is empty outside all packages. -/
def TypeDeclaration.ofNode? (owner : String) : Node Part → Option TypeDeclaration
  | .branch (.type kind) cs =>
    let name := (nameIn? cs).getD ""
    let qualified := if owner.isEmpty then name else owner ++ "." ++ name
    let members := (partOf? .body cs).getD []
    some ⟨kind, name, qualified, .ofParts cs, fieldsOf members, methodsOf members,
      ofBody qualified cs⟩
  | _ => none

/-- The types in the first body among the parts of a type. -/
def TypeDeclaration.ofBody (owner : String) : List (Node Part) → List TypeDeclaration
  | [] => []
  | .branch .body cs :: _ => ofMembers owner cs
  | _ :: ns => ofBody owner ns

/-- The types among members. -/
def TypeDeclaration.ofMembers (owner : String) : List (Node Part) → List TypeDeclaration
  | [] => []
  | n :: ns => (ofNode? owner n).toList ++ ofMembers owner ns

end

/-! ## Files -/

/-- The name of the package that a declaration gives: what is written, without blanks. -/
def packageName (source : List Char) (ns : List (Node Part)) : String :=
  match tokensOf ((partOf? .name ns).getD []) with
  | [] => ""
  | t :: ts =>
    let stop := ((t :: ts).getLast?.map (·.stop)).getD t.stop
    String.ofList (((source.drop t.start).take (stop - t.start)).filter (!Text.isBlank ·))

/-- Reads the declarations of a file one after the other; a package counts for the types behind
it. -/
def Unit.ofNodes (source : List Char) (u : Unit) : List (Node Part) → Unit
  | [] => u
  | .branch .package cs :: ns =>
    ofNodes source { u with package := some (packageName source cs) } ns
  | n :: ns =>
    let found := TypeDeclaration.ofNode? (u.package.getD "") n
    ofNodes source { u with types := u.types ++ found.toList } ns

/-- The declarations of a file, if it keeps to the grammar. -/
def Unit.scan? (source : List Char) : Option Unit := do
  let tokens ← tokenize? source
  let nodes ← Pattern.parse? Rule.grammar Rule.file tokens
  return .ofNodes source ⟨none, []⟩ nodes

end Jarwright.Source
