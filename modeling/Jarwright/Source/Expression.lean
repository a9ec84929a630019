import Jarwright.Source.Rule

/-!
# Expressions

The patterns of expressions and of what is matched in them. Operators need no precedence here, since
the shape of an expression is not kept: an expression is an operand with any number of operators
and operands behind it.

* `expressionOf`, `operandOf` and `primaryOf` give the rules for each extent;
* `switchBody` is the inside of a switch, whose labels are expressions or patterns.
-/

namespace Jarwright.Source.Rule

open Pattern

/-! ## Operators -/

def binaryOperator : P :=
  any ((["<<", "<=", "<", "==", "!=", "&&", "||", "+", "-", "*", "/", "%", "&", "|", "^"].map
    Pattern.token) ++ [joined [">", ">", ">"], joined [">", ">"], joined [">", "="], ">"])

def assignmentOperator : P :=
  any ((["=", "+=", "-=", "*=", "/=", "&=", "|=", "^=", "%=", "<<="].map Pattern.token)
    ++ [joined [">", ">", ">", "="], joined [">", ">", "="]])

def sign : P := word ["+", "-", "!", "~", "++", "--"]

/-! ## Texts and conditions -/

/-- A text literal: one piece, or several with expressions between them. -/
def textLiteral : P :=
  any [.kind (.text true true),
    all [.kind (.text true false), value,
      .many (all [.kind (.text false false), value]), .kind (.text false true)]]

def condition : P := parens value

/-! ## Selections -/

/-- The targets of a method reference, behind the double colon. -/
def methodReference : P := all ["::", opt (.ref .typeArguments), any ["new", ident]]

/-- A method or field behind a dot. -/
def access (reserved : List String) (e : Extent) : P :=
  any [
    all [.ref .typeArguments, ident, .ref .arguments, .ref (.after .other e)],
    all ["this", .ref (.after .field e)],
    all [.name ("this" :: reserved), .ref (.after .name e)]]

/-- What can follow the dot behind an operand. -/
def selection (e : Extent) : P :=
  any [
    all ["new", .ref (.creation e)],
    all [textLiteral, .ref (.after .other e)],
    all ["super", ".", access [] e],
    access ["new", "super"] e]

/-- What can follow every operand of the highest level. -/
def continuation (e : Extent) : P :=
  any [
    all ["[", value, "]", .ref (.after .index e)],
    all [".", selection e],
    all [methodReference, .ref (.after .other e)]]

/-- What can follow an operand. -/
def afterOf (a : Ending) (e : Extent) : P :=
  let call := match a with
    | .name => [all [.ref .arguments, .ref (.after .other e)]]
    | _ => []
  let assignment := if a.assignable && e.assigns then
    [all [assignmentOperator, .ref (.expression e)]] else []
  any (call ++ [continuation e] ++ assignment ++ if a.closes e then [.empty] else [])

/-! ## Operands -/

/-- What is created behind `new`: an array with sizes or values, or an object. -/
def creationOf (e : Extent) : P :=
  let sized := all [many1 (all [markers, "[", value, "]"]), opt (.ref .dimensions)]
  let listed := all [.ref .dimensions, .ref .arrayInitializer]
  let generic := opt (all [.ref .typeArguments, markers])
  all [markers, any [
      all [simpleType, any [sized, listed]],
      all [generic, simpleType, .ref .arguments, opt (.ref .classBody)]],
    .ref (.after .other e)]

/-- An operand that can be selected from, with what follows it. -/
def primaryOf (e : Extent) : P :=
  let typed := barring valueTypeWords (.ref .plainType)
  let classType := barring valueTypeWords (all [simpleTypeBut ["class"], opt (.ref .dimensions)])
  let grouped := all ["(", barring modifierWords value, ")"]
  any [
    all [markers, typed, methodReference, .ref (.after .other e)],
    all [classType, ".", "class", .unless (any ["(", assignmentOperator]), .ref (.after .other e)],
    all ["new", .ref (.creation e)],
    all ["super", any [
      all [methodReference, .ref (.after .other e)],
      all [".", "super", ".", access [] e],
      all [".", access ["super"] e]]],
    all [any [.kind .literal, textLiteral, word ["true", "false", "null", "this"], grouped],
      .ref (.after .other e)],
    all [.name valueWords, .ref (.after .name e)]]

/-- A function of parameters, given by an expression or a block. An expression in parentheses could
start where the parameters do, so some words behind the parenthesis belong to that. -/
def lambda : P :=
  let names := all [.name (valueWords ++ modifierWords), .many (all [comma, ident])]
  let grouped := all ["(", any [word (operandWords ++ softWords.erase "sealed"),
    all [.name modifierWords, "instanceof"]]]
  all [any [.name valueWords, parens names, all [.unless grouped, .ref .parameters]], "->",
    any [.ref .block, value]]

/-- A type in parentheses in front of what is taken for it; a word that is read as an operator makes
an operand of the parentheses. What is taken for several types can be selected from, or is a
function. -/
def castOf (e : Extent) : P :=
  let first := all ["(", barring valueTypeWords (all [markers,
    barring ("sealed" :: modifierWords) (.ref .plainType)])]
  let operators := match e with
    | .label => operatorWords
    | _ => ["instanceof"]
  let operated := all [word operators,
    any [ident, word ["@", "!", "~", "++", "--"], .kind .literal, textLiteral]]
  any [
    all [first, ")", .unless operated, .ref (.operand e)],
    all [first, many1 (all ["&", .ref .type]), ")", any [lambda, .ref (.primary .primary)]]]

/-- An operand with the signs and types in front of it. -/
def operandOf (e : Extent) : P :=
  any [
    all [sign, .ref (.operand e)],
    lambda,
    castOf e,
    all ["switch", condition, .ref .switchBlock],
    .ref (.primary e)]

/-! ## Patterns of values -/

/-- A pattern for a record, with one for each component. -/
def recordForm : P :=
  let component := any ["_", .ref .recordPattern, all [barring softWords (.ref .plainType), ident]]
  all [any [all [.name primitives, ahead "("], barring softWords genericType],
    parens (sepBy comma component)]

/-- A test of a type. Where angle brackets leave something that cannot follow a type, they compare
what was tested. -/
def instanceTest : P :=
  let unfit := any [word ["(", ".", "[", "::", "!", "~"], .kind .literal, textLiteral,
    assignmentOperator]
  all ["instanceof", opt "final", any [
    .ref .recordPattern,
    barring softWords (all [.ref .type, opt (.name operatorWords), .unless unfit]),
    barring softWords (all [markers, .name primitives, furtherNames])]]

/-! ## Expressions -/

/-- An operator behind an operand, with the operand behind it. -/
def operationOf (e : Extent) : P :=
  any ["++", "--",
    all [binaryOperator, .ref (.operand e)],
    instanceTest,
    all ["?", value, ":", .ref (.expression e)]]

/-- An operand and what is done with it. -/
def expressionOf (e : Extent) : P := all [.ref (.operand e), .many (operationOf e)]

/-! ## Switches -/

/-- A pattern in a label. The word behind a type of one name is taken for a guard if it can be. -/
def labelPattern : P :=
  let short := .name (valueTypeWords ++ primitives)
  barring operandWords (any [
    .ref .recordPattern,
    all [short, .name operatorWords],
    all [.unless (all [short, ident]), barring softWords (.ref .plainType), ident]])

/-- A label up to the token that ends it, and what follows from there on. Functions in a label may
hold such tokens as well. A name with an underscore first in its parentheses is no call. -/
def labelBefore (stop : String) (outcome : P) : P :=
  let guard := opt (all ["when", .ref (.expression .label)])
  let values := all [.unless (all [.name valueWords, "(", "_"]),
    sepBy1 comma (.ref (.expression .label))]
  let rest := all [.token stop, outcome]
  any [
    all ["case", .before stop (any [all [labelPattern, guard, finish], all [values, guard]]) rest],
    all ["default", rest]]

/-- The inside of a switch: labels with one outcome each, or labels with statements behind them. -/
def switchBody : P :=
  let outcome := all [
    any [.ref .block, all ["throw", value, ";"], all [barring ["throw"] value, ";"]],
    ahead (any [word ["case", "default"], closeBrace])]
  let groups := all [many1 (labelBefore ":" .empty), .many (barring ["case"] (.ref .statement))]
  any [braces (.many (labelBefore "->" outcome)), braces (.many groups)]

end Jarwright.Source.Rule
