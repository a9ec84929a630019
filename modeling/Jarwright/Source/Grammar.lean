import Jarwright.Source.Expression

/-!
# The grammar of Java source files

The rules down to the last expression, so that a file with a mistake anywhere is told from one
without.

* `grammar` gives each rule;
* `file` is the pattern of a whole file.
-/

namespace Jarwright.Source.Rule

open Pattern

/-! ## Markers -/

/-- The value of a marker's argument. -/
def elementValue : P := .ref .element

/-- A marker: its arguments are pairs, or one value. -/
def markerForm : P :=
  let pair (key : P) := all [key, "=", elementValue]
  .tag .marker (all ["@", .ref .qualified, opt (parens (any [
    all [pair (.name valueWords), .many (all [comma, pair ident]), ahead ")"],
    all [elementValue, ahead ")"],
    .empty]))])

/-! ## Types and their members -/

/-- The members of a type that is declared in a body. -/
def bodyOf (r : Rule) : P := .tag .body (braces (.many (.ref r)))

/-- The body of an enumeration: constants, then members. -/
def enumBody : P :=
  let constant := .tag .inner (all [opt (.ref .modifiers), .name ("sealed" :: modifierWords),
    opt (.ref .arguments), opt (.ref .classBody)])
  .tag .body (braces (all [sepBy comma constant, opt comma, opt (all [";", .many (.ref .member)])]))

/-- A type with its modifiers. -/
def typeDeclaration (kind : TypeKind) (ps : List P) : P :=
  .tag (.type kind) (all (opt (.ref .modifiers) :: ps))

def classDeclaration : P :=
  typeDeclaration .classType ["class", named [], opt (.ref .typeParameters),
    opt (all ["extends", .ref .type]), opt (typesAfter "implements"), opt (typesAfter "permits"),
    bodyOf .member]

def interfaceDeclaration : P :=
  typeDeclaration .interfaceType ["interface", named [], opt (.ref .typeParameters),
    opt (typesAfter "extends"), opt (typesAfter "permits"), bodyOf .interfaceMember]

def enumDeclaration : P :=
  typeDeclaration .enumType ["enum", named [], opt (typesAfter "implements"), enumBody]

def recordDeclaration : P :=
  typeDeclaration .recordType ["record", named [], opt (.ref .typeParameters), .ref .parameters,
    opt (typesAfter "implements"), bodyOf .member]

def markerDeclaration : P :=
  typeDeclaration .markerType ["@interface", named [], bodyOf .markerMember]

/-- Variables with the same modifiers and type, in a body. -/
def fieldDeclaration (words : List String) : P :=
  .tag .field (all [opt (.ref .modifiers), barring words (.ref .plainType), .ref .declarators, ";"])

/-- A method. Its type starts with none of some words, but behind type parameters with any. A lone
underscore names a variable wherever there could be one. -/
def methodDeclaration (words : List String) : P :=
  .tag .method (all [opt (.ref .modifiers), any [
      all [.ref .typeParameters, markers, .ref .plainType, named []],
      all [barring words (.ref .plainType), named ["_"]]],
    .ref .parameters, opt (.ref .dimensions), opt (.ref .throws), any [.ref .block, ";"]])

/-- What no constructor can be called. -/
def memberWords : List String := typeWords ++ primitives ++ "sealed" :: modifierWords

def constructorDeclaration : P :=
  let call := any [
    all [opt (.ref .typeArguments), any ["this", "super"], .ref .arguments, ";"],
    all [barring statementWords (.ref (.primary .primary)), ".", opt (.ref .typeArguments), "super",
      .ref .arguments, ";"]]
  let body := .tag .inner (braces (all [opt call, .many (.ref .statement)]))
  .tag .constructor (all [opt (.ref .modifiers),
    any [all [.ref .typeParameters, named primitives], named memberWords],
    .ref .parameters, opt (.ref .throws), body])

/-- A constructor that leaves out its parameters. -/
def compactDeclaration : P :=
  .tag .constructor (all [opt (.ref .modifiers), named memberWords, .ref .block])

/-- An element of a marker, which may have a default value. -/
def markerElement : P :=
  .tag .method (all [opt (.ref .modifiers), barring (typeWords.erase "record") (.ref .plainType),
    named ["_"], "(", ")", opt (.ref .dimensions), opt (all ["default", elementValue]), ";"])

/-- Parameters with a receiver in front of them, or without one. -/
def parameterList : P :=
  let typed := barring ("sealed" :: modifierWords) (.ref .plainType)
  let outer (words : List String) :=
    opt (all [.name ("this" :: words), ".", .many (all [.name ["this"], "."])])
  let receiver := all [any [all [many1 (.ref .marker), typed, outer []],
    all [typed, outer ("_" :: softWords)]], "this"]
  let one := all [opt (.ref .modifiers), .ref .plainType,
    any [all ["...", declared, opt (all ["=", .ref .initializer])], declared]]
  parens (any [all [receiver, opt (all [comma, sepBy comma one])], sepBy comma one])

/-! ## Statements -/

/-- The type of a variable where an expression could start as well, with modifiers or without. -/
def localType (words operators : List String) : P :=
  any [all [.ref .modifiers, .ref .plainType], leadingType words operators]

def catchClause : P :=
  all ["catch", parens (all [opt (.ref .modifiers), sepBy1 "|" (.ref .plainType), declared]),
    .ref .block]

def finallyClause : P := all ["finally", .ref .block]

/-- What no type can be called where parameters or an expression can start. -/
def groupWords : List String := valueTypeWords ++ modifierWords

/-- A resource: a new variable, or a variable or field that is there. -/
def resource : P :=
  any [
    all [localType groupWords ["instanceof"], declared, "=", value],
    all [.unless (all [word softWords, word [";", ")"]]),
      barring modifierWords (.ref (.primary .field))]]

def tryStatement : P :=
  let clauses := all [.many catchClause, .unless "catch", any [finallyClause, .unless "finally"]]
  all ["try", any [
    all [parens (all [sepBy1 ";" resource, opt ";"]), .ref .block, clauses],
    all [.ref .block, ahead (word ["catch", "finally"]), clauses]]]

def forStatement : P :=
  let typed := localType groupWords operatorWords
  let each := all [typed, declared, ":", value]
  let start := any [all [typed, .ref .declarators, ";"],
    all [opt (barring modifierWords (sepBy1 comma value)), ";"]]
  all ["for", parens (any [each, all [start, opt value, ";", sepBy comma value]]),
    .ref .statement]

/-- The statements that a word of their own starts. A switch may be the first operand of an
expression. -/
def keywordStatement : P :=
  any [
    all ["assert", value, opt (all [":", value]), ";"],
    all ["if", condition, .ref .statement, any [all ["else", .ref .statement], .unless "else"]],
    all ["while", condition, .ref .statement],
    forStatement,
    all ["do", .ref .statement, "while", condition, ";"],
    all ["break", opt ident, ";"],
    all ["continue", opt ident, ";"],
    all ["return", opt value, ";"],
    all ["yield", barring ["instanceof"] value, ";"],
    all ["switch", condition, .ref .switchBlock, opt (all [many1 (operationOf .whole), ";"])],
    all ["synchronized", condition, .ref .block],
    all ["throw", value, ";"],
    tryStatement]

def moduleDeclaration : P :=
  all [markers, opt "open", "module", .ref .qualified, braces (.many (.ref .moduleDirective))]

def packageDeclaration : P :=
  .tag .package (all [markers, "package", .tag .name (.ref .qualified), ";"])

def importDeclaration : P :=
  all ["import", opt "static", .name ["static"], .many (all [".", ident]), opt (all [".", "*"]),
    ";"]

/-- The declarations that can stand wherever a statement can. -/
def declaration : P :=
  any [packageDeclaration, importDeclaration, classDeclaration, recordDeclaration,
    interfaceDeclaration, markerDeclaration, enumDeclaration, moduleDeclaration]

/-- What no type can be called where a statement starts. -/
def localWords : List String := statementWords ++ valueTypeWords

/-- A statement without a word of its own. Behind markers alone, the words of packages and modules
start declarations of those. -/
def plainStatement : P :=
  all [.unless (all [many1 (.ref .marker), word ["package", "open", "module"]]), any [
    all [.name (localWords ++ primitives), ":", .ref .statement],
    all [.unless (all [.ref .modifiers, word typeWords]), localType localWords ["instanceof"],
      .ref .declarators, ";"],
    all [.unless nonSealed, barring ("switch" :: statementWords) value, ";"]]]

/-! ## The rules -/

/-- What each rule describes. -/
def grammar : Rule → P
  | .qualified => sepBy1 "." ident
  | .marker => markerForm
  | .element =>
    any [
      braces (all [sepBy comma elementValue, opt comma]),
      all [.ref .marker, .unless (any [ident, "@"])],
      value]
  | .modifiers =>
    .tag .modifiers (many1 (any [.ref .marker, nonSealed, word ("sealed" :: modifierWords)]))
  | .plainType => all [simpleType, opt (.ref .dimensions)]
  | .type => all [markers, .ref .plainType]
  | .typeArguments =>
    let bound := any [all ["extends", .ref .type], all ["super", .ref .type]]
    let wildcard := all [markers, "?", opt bound]
    all ["<", sepBy comma (any [wildcard, .ref .type]), ">"]
  | .dimensions => many1 (all [markers, "[", "]"])
  | .typeParameters =>
    all ["<", sepBy1 comma (all [markers, ident,
      opt (all ["extends", sepBy1 "&" (.ref .type)])]), ">"]
  | .parameters => parameterList
  | .throws => typesAfter "throws"
  | .declarators =>
    sepBy1 comma (all [named [], opt (.ref .dimensions),
      opt (.tag .inner (all ["=", .ref .initializer]))])
  | .initializer => any [.ref .arrayInitializer, value]
  | .arrayInitializer => braces (all [sepBy comma (.ref .initializer), opt comma])
  | .classBody => bodyOf .member
  | .memberType =>
    any [recordDeclaration, classDeclaration, interfaceDeclaration, markerDeclaration,
      enumDeclaration]
  | .member =>
    any [";", .tag .inner (.ref .block), .tag .inner (all ["static", .ref .block]),
      .ref .memberType, methodDeclaration typeWords, fieldDeclaration typeWords,
      constructorDeclaration, compactDeclaration]
  | .interfaceMember =>
    any [";", .ref .memberType, methodDeclaration typeWords, fieldDeclaration typeWords]
  | .markerMember =>
    any [";", classDeclaration, interfaceDeclaration, markerDeclaration, enumDeclaration,
      markerElement, fieldDeclaration (typeWords.erase "record")]
  | .statement =>
    any [
      .tag .inner (any [.ref .block, ";", keywordStatement]),
      declaration,
      .tag .inner plainStatement]
  | .block => braces (.many (.ref .statement))
  | .moduleDirective =>
    let targets (word : String) := opt (all [.token word, sepBy1 comma (.ref .qualified)])
    any [
      all ["requires", .many (any ["transitive", "static"]), .ref .qualified, ";"],
      all [any ["exports", "opens"], .ref .qualified, targets "to", ";"],
      all ["uses", .ref .qualified, ";"],
      all ["provides", .ref .qualified, "with", sepBy1 comma (.ref .qualified), ";"]]
  | .switchBlock => switchBody
  | .arguments => parens (sepBy comma value)
  | .recordPattern => recordForm
  | .expression e => expressionOf e
  | .operand e => operandOf e
  | .primary e => primaryOf e
  | .creation e => creationOf e
  | .after a e => afterOf a e

/-- A whole file; methods can stand in it outside all types. -/
def file : P :=
  let method := any [all [ahead (.ref .modifiers), methodDeclaration typeWords],
    methodDeclaration localWords]
  .many (any [.ref .statement, .tag .inner method])

end Jarwright.Source.Rule
