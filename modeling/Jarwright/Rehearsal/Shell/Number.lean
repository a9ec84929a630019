import Jarwright.Text.Number

/-!
# Arithmetic and tests of the shell

Integers without a bound stand for those of the shell. A comparison is one or zero.

* `evaluate?` gives the value of an expression;
* `holds?` says whether the words of a test hold.
-/

namespace Jarwright.Rehearsal.Shell

/-- Reads an integer with or without a sign. -/
def integer? (cs : List Char) : Option Int :=
  let magnitude? (ds : List Char) : Option Nat := (Text.unsigned UInt64.size ds).toOption
  match cs with
  | '-' :: ds => (magnitude? ds).map fun n => -(n : Int)
  | ds => (magnitude? ds).map fun n => (n : Int)

/-- Operators with two sides, level by level, the loosest first. -/
def operators : List (List String) :=
  [["||"], ["&&"], ["==", "!="], ["<=", ">=", "<", ">"], ["+", "-"], ["*", "/", "%"]]

/-- One if something holds, and else zero. -/
def truth (b : Bool) : Int := if b then 1 else 0

/-- The value of an operator; there is none for a division by zero. -/
def combine? (operator : String) (a b : Int) : Option Int :=
  match operator with
  | "||" => some (truth (a != 0 || b != 0))
  | "&&" => some (truth (a != 0 && b != 0))
  | "==" => some (truth (a == b))
  | "!=" => some (truth (a != b))
  | "<=" => some (truth (decide (a ≤ b)))
  | ">=" => some (truth (decide (b ≤ a)))
  | "<" => some (truth (decide (a < b)))
  | ">" => some (truth (decide (b < a)))
  | "+" => some (a + b)
  | "-" => some (a - b)
  | "*" => some (a * b)
  | "/" => if b = 0 then none else some (a.tdiv b)
  | "%" => if b = 0 then none else some (a.tmod b)
  | _ => none

/-- What is left behind blanks. -/
def skipBlanks (cs : List Char) : List Char := cs.dropWhile (· == ' ')

/-- The operator of a level at the start of a text, and what is left. -/
def operatorAt? (level : List String) (cs : List Char) : Option (String × List Char) :=
  level.findSome? fun o =>
    if o.toList.isPrefixOf cs then some (o, cs.drop o.length) else none

mutual

/-- Reads an expression of the given levels; the number bounds its length. -/
def term? (valueOf : List Char → List Char) :
    Nat → List (List String) → List Char → Option (Int × List Char)
  | 0, _, _ => none
  | n + 1, level :: levels, cs => do
    let (a, rest) ← term? valueOf n levels cs
    terms? valueOf n level levels a rest
  | n + 1, [], cs =>
    match skipBlanks cs with
    | '(' :: rest => do
      let (a, rest) ← term? valueOf n operators rest
      match skipBlanks rest with
      | ')' :: rest => return (a, rest)
      | _ => none
    | '-' :: rest => (term? valueOf n [] rest).map fun (a, rest) => (-a, rest)
    | '+' :: rest => term? valueOf n [] rest
    | '!' :: rest => (term? valueOf n [] rest).map fun (a, rest) => (truth (a == 0), rest)
    | '$' :: rest => term? valueOf n [] rest
    | c :: cs =>
      let word := (c :: cs).takeWhile fun d => d.isAlphanum || d == '_'
      let rest := (c :: cs).drop word.length
      if c.isDigit then (integer? word).map fun a => (a, rest)
      else if word.isEmpty then none
      else some ((integer? (valueOf word)).getD 0, rest)
    | [] => none

/-- Reads what operators of a level add to a value. -/
def terms? (valueOf : List Char → List Char) :
    Nat → List String → List (List String) → Int → List Char → Option (Int × List Char)
  | 0, _, _, _, _ => none
  | n + 1, level, levels, a, cs =>
    match operatorAt? level (skipBlanks cs) with
    | none => some (a, cs)
    | some (operator, rest) => do
      let (b, rest) ← term? valueOf n levels rest
      terms? valueOf n level levels (← combine? operator a b) rest

end

/-- The value of an expression, given those of variables. -/
def evaluate? (valueOf : List Char → List Char) (cs : List Char) : Option Int := do
  let (a, rest) ← term? valueOf (8 * (cs.length + 8)) operators cs
  if (skipBlanks rest).isEmpty then return a else none

/-- Whether a test holds; some have no meaning. -/
def holds? : List (List Char) → Option Bool
  | ['!'] :: rest => (holds? rest).map (!·)
  | [] => some false
  | [word] => some !word.isEmpty
  | [operator, word] =>
    match String.ofList operator with
    | "-n" => some !word.isEmpty
    | "-z" => some word.isEmpty
    | _ => none
  | [a, operator, b] =>
    match String.ofList operator with
    | "=" => some (a == b)
    | "!=" => some (a != b)
    | o => do
      let a ← integer? a
      let b ← integer? b
      match o with
      | "-eq" => some (a == b)
      | "-ne" => some (a != b)
      | "-lt" => some (decide (a < b))
      | "-le" => some (decide (a ≤ b))
      | "-gt" => some (decide (b < a))
      | "-ge" => some (decide (b ≤ a))
      | _ => none
  | _ => none

end Jarwright.Rehearsal.Shell
