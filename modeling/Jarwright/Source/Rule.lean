import Jarwright.Source.Pattern

/-!
# Rules of the grammar

The names of the rules for Java source files, the parts of a file that are kept, and the patterns
that need no rule of their own. Keywords are reserved only where they could stand: a word that no
rule expects at its place is a name, so each pattern says which words it cannot start with.

* `Part` names what is kept of a file: declarations, their modifiers, names and bodies;
* `Rule` names the rules, and `Rule.P` are the patterns over them;
* `Extent` says how far an expression reaches, and `Ending` what an operand ends in.
-/

namespace Jarwright.Source

/-- The kinds of type declarations. -/
inductive TypeKind where
  | classType | interfaceType | enumType | recordType | markerType
  deriving DecidableEq, Repr, Inhabited

/-- The parts of a file that are kept. -/
inductive Part where
  | package
  | type (kind : TypeKind)
  | modifiers
  /-- One marker with its arguments, among modifiers or in front of a type. -/
  | marker
  | name
  | body
  | field | method | constructor
  /-- A part whose inside does not belong to the declaration around it. -/
  | inner
  deriving DecidableEq, Repr, Inhabited

/-- How far an expression reaches. -/
inductive Extent where
  | whole
  /-- In a label of a switch, where a guard may follow. -/
  | label
  /-- An operand that can be selected from, and no assignment to it. -/
  | primary
  /-- A variable or a field. -/
  | field
  deriving DecidableEq, Repr, Inhabited

/-- Whether an assignment may follow its target. -/
def Extent.assigns : Extent → Bool
  | .whole | .label => true
  | .primary | .field => false

/-- What an operand ends in. -/
inductive Ending where
  /-- A name, which arguments may follow. -/
  | name
  | field | index | other
  deriving DecidableEq, Repr, Inhabited

/-- Whether an operand can be assigned to. -/
def Ending.assignable : Ending → Bool
  | .name | .field | .index => true
  | .other => false

/-- Whether an operand that reaches so far can end so. -/
def Ending.closes : Ending → Extent → Bool
  | .index, .field | .other, .field => false
  | _, _ => true

/-- The rules of the grammar. -/
inductive Rule where
  | qualified | marker | element | modifiers
  | plainType | type | typeArguments | dimensions
  | typeParameters | parameters | throws
  | declarators | initializer | arrayInitializer | classBody | memberType
  | member | interfaceMember | markerMember
  | statement | block | moduleDirective | switchBlock
  | arguments | recordPattern
  | expression (e : Extent) | operand (e : Extent) | primary (e : Extent) | creation (e : Extent)
  /-- What follows the end of an operand. -/
  | after (a : Ending) (e : Extent)
  deriving DecidableEq, Repr, Inhabited

namespace Rule

open Pattern

/-- Patterns over these rules and parts. -/
abbrev P := Pattern Rule Part

/-! ## Words -/

/-- The types that have a word of their own. -/
def primitives : List String :=
  ["void", "byte", "short", "int", "long", "char", "float", "double", "boolean"]

/-- The words for modifiers, but for `sealed`. -/
def modifierWords : List String :=
  ["public", "protected", "private", "abstract", "static", "final", "strictfp", "default",
    "synchronized", "native", "transient", "volatile"]

/-- The words that start a declaration of a type. -/
def typeWords : List String := ["class", "interface", "enum", "record"]

/-- Where an expression can start, these words do and no name does. -/
def operandWords : List String := ["new", "this", "super", "true", "false", "null", "switch"]

/-- Where an expression can start, these words can name variables but no types. -/
def softWords : List String := ["open", "module", "record", "with", "yield", "sealed"]

/-- The words that start a statement and no expression. -/
def statementWords : List String :=
  ["assert", "break", "class", "continue", "do", "enum", "for", "if", "import", "interface",
    "package", "return", "synchronized", "throw", "try", "while"] ++ modifierWords

/-- The operators that are words; the second one stands in labels only. -/
def operatorWords : List String := ["instanceof", "when"]

/-- What no variable can be called where an expression starts. -/
def valueWords : List String := operandWords ++ primitives

/-- What no type can be called where an expression can start as well. -/
def valueTypeWords : List String := operandWords ++ softWords

/-! ## Small patterns -/

def openBrace : P := "\x7b"

def closeBrace : P := "\x7d"

def comma : P := ","

/-- A word that is no keyword here. -/
def ident : P := .name []

/-- The end of what is to be matched. -/
def finish : P :=
  .unless (any [ident, .kind .symbol, .kind .literal, .kind (.text true true),
    .kind (.text true false), .kind (.text false true), .kind (.text false false)])

/-- A name that is kept. -/
def named (reserved : List String) : P := .tag .name (.name reserved)

/-- One of some words. -/
def word (words : List String) : P := any (words.map .token)

/-- A pattern that starts with none of some words. -/
def barring (words : List String) (p : P) : P := .seq (.unless (word words)) p

/-- Something between parentheses. -/
def parens (p : P) : P := all ["(", p, ")"]

/-- Something between braces. -/
def braces (p : P) : P := all [openBrace, p, closeBrace]

/-- Symbols without a separator between them. -/
def joined : List String → P
  | [] => .empty
  | s :: ss => all (.token s :: ss.map .glued)

/-- The modifier that is written as three tokens. -/
def nonSealed : P := joined ["non", "-", "sealed"]

/-- An expression of any kind. -/
def value : P := .ref (.expression .whole)

def markers : P := .many (.ref .marker)

/-! ## Types -/

/-- The names behind a type, each with a dot and markers. Behind a dot every word is a name. -/
def furtherNames : P := .many (all [".", markers, ident])

/-- A type without dimensions, in which none of some words stands behind a dot. -/
def simpleTypeBut (words : List String) : P :=
  let arguments := opt (.ref .typeArguments)
  any [word primitives, all [.name primitives, arguments,
    .many (all [".", markers, .name words, arguments])]]

def simpleType : P := simpleTypeBut []

/-- A type that ends in type arguments. -/
def genericType : P :=
  all [.name primitives, furtherNames, .ref .typeArguments,
    .many (all [many1 (all [".", markers, ident]), .ref .typeArguments])]

/-- The types behind a keyword, with commas between them. -/
def typesAfter (keyword : String) : P := all [.token keyword, sepBy1 comma (.ref .type)]

/-- A declared name with the dimensions behind it. -/
def declared : P := all [ident, opt (.ref .dimensions)]

/-- A type that starts where an expression could, with none of some words. Behind a type of one name
some words are operators and name no variable. -/
def leadingType (words operators : List String) : P :=
  all [.unless (all [.name primitives, word operators]), barring words (.ref .plainType)]

end Rule

end Jarwright.Source
