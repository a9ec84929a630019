import Jarwright.Bytes
import Jarwright.Document.Value

/-!
# JSON

* `Json.parse?` reads a text that is one value with nothing but blanks around it;
* `Json.render` writes a value over several lines, indented by two blanks per level.

Numbers keep their value only if they are integers. Four hexadecimal digits name a unit of UTF-16,
and two units that form a pair are one character.
-/

namespace Jarwright.Document.Json

/-! ## Texts -/

/-- The characters of a text given by code points, where surrogates stand in pairs or not at all. -/
def charsOf? : List Nat → Option (List Char)
  | [] => some []
  | [n] => if 0xd800 ≤ n ∧ n < 0xe000 then none else some [Char.ofNat n]
  | n :: m :: ns =>
    if 0xd800 ≤ n ∧ n < 0xdc00 then
      if 0xdc00 ≤ m ∧ m < 0xe000 then
        (charsOf? ns).map (Char.ofNat (0x10000 + (n - 0xd800) * 0x400 + (m - 0xdc00)) :: ·)
      else none
    else if 0xdc00 ≤ n ∧ n < 0xe000 then none
    else (charsOf? (m :: ns)).map (Char.ofNat n :: ·)

/-- What the character behind a backslash stands for. -/
def escape? : Char → Option Nat
  | '"' => some 34
  | '\\' => some 92
  | '/' => some 47
  | 'b' => some 8
  | 'f' => some 12
  | 'n' => some 10
  | 'r' => some 13
  | 't' => some 9
  | _ => none

/-- Reads the inside of a text up to the closing quote. -/
def codesOf? : List Char → Option (List Nat × List Char)
  | [] => none
  | '"' :: cs => some ([], cs)
  | '\\' :: 'u' :: a :: b :: c :: d :: cs => do
    let n ← Bytes.hexValue? a
    let m ← Bytes.hexValue? b
    let k ← Bytes.hexValue? c
    let l ← Bytes.hexValue? d
    let (ns, rest) ← codesOf? cs
    return ((((n * 16 + m) * 16 + k) * 16 + l) :: ns, rest)
  | '\\' :: c :: cs => do
    let n ← escape? c
    let (ns, rest) ← codesOf? cs
    return (n :: ns, rest)
  | c :: cs =>
    if c.toNat < 32 ∨ c = '\\' then none
    else do
      let (ns, rest) ← codesOf? cs
      return (c.toNat :: ns, rest)

/-- How a character is written inside a text. -/
def escapeChar (c : Char) : List Char :=
  match c with
  | '"' => ['\\', '"']
  | '\\' => ['\\', '\\']
  | '\n' => ['\\', 'n']
  | '\r' => ['\\', 'r']
  | '\t' => ['\\', 't']
  | '\x08' => ['\\', 'b']
  | '\x0c' => ['\\', 'f']
  | c =>
    if c.toNat < 32 then
      ['\\', 'u', '0', '0', Bytes.hexDigit (c.toNat / 16), Bytes.hexDigit (c.toNat % 16)]
    else [c]

/-- A text between quotes. -/
def quoted (s : String) : List Char := '"' :: s.toList.flatMap escapeChar ++ ['"']

/-! ## Numbers -/

/-- The digits at the start of a text. -/
def digits (cs : List Char) : List Char := cs.takeWhile Char.isDigit

/-- The value of decimal digits. -/
def valueOf (ds : List Char) : Nat := ds.foldl (fun n d => n * 10 + (d.toNat - 48)) 0

/-- What is left after a fraction, if there is one. -/
def afterFraction? : List Char → Option (List Char)
  | '.' :: cs => if (digits cs).isEmpty then none else some (cs.dropWhile Char.isDigit)
  | cs => some cs

/-- What is left after an exponent, if there is one. -/
def afterExponent? : List Char → Option (List Char)
  | e :: cs =>
    if e = 'e' ∨ e = 'E' then
      let cs := match cs with
        | s :: rest => if s = '+' ∨ s = '-' then rest else cs
        | [] => cs
      if (digits cs).isEmpty then none else some (cs.dropWhile Char.isDigit)
    else some (e :: cs)
  | [] => some []

/-- Reads a number without its sign. An integer has no needless zeros in front. -/
def number? (negative : Bool) (cs : List Char) : Option (Value × List Char) := do
  let ds := digits cs
  if ds.isEmpty ∨ (ds.head? = some '0' ∧ 1 < ds.length) then none
  else
    let behind := cs.dropWhile Char.isDigit
    let rest ← afterFraction? behind
    let rest ← afterExponent? rest
    let n := valueOf ds
    if rest.length < behind.length ∨ (negative ∧ n = 0) then return (.fraction, rest)
    else return (.integer (if negative then -(n : Int) else n), rest)

/-! ## Values -/

/-- The blanks of the format. -/
def isBlank (c : Char) : Bool := c == ' ' || c == '\n' || c == '\t' || c == '\r'

def skipBlanks (cs : List Char) : List Char := cs.dropWhile isBlank

/-- The text behind an opening quote as a value. -/
def textValue? (cs : List Char) : Option (Value × List Char) := do
  let (ns, rest) ← codesOf? cs
  return (((charsOf? ns).map fun s => Value.text (String.ofList s)).getD .brokenText, rest)

mutual

/-- Reads a value. The number bounds nesting and the lengths of lists and records together. -/
def value? : Nat → List Char → Option (Value × List Char)
  | 0, _ => none
  | n + 1, cs =>
    match skipBlanks cs with
    | 'n' :: 'u' :: 'l' :: 'l' :: rest => some (.null, rest)
    | 't' :: 'r' :: 'u' :: 'e' :: rest => some (.bool true, rest)
    | 'f' :: 'a' :: 'l' :: 's' :: 'e' :: rest => some (.bool false, rest)
    | '"' :: rest => textValue? rest
    | '-' :: rest => number? true rest
    | '[' :: rest =>
      match skipBlanks rest with
      | ']' :: rest => some (.list [], rest)
      | rest => do
        let (xs, rest) ← elements? n rest
        return (.list xs, rest)
    | '\x7b' :: rest =>
      match skipBlanks rest with
      | '\x7d' :: rest => some (.record [], rest)
      | rest => do
        let (fs, rest) ← members? n rest
        return (.record fs, rest)
    | rest => number? false rest

/-- Reads the elements of a list up to its end. -/
def elements? : Nat → List Char → Option (List Value × List Char)
  | 0, _ => none
  | n + 1, cs => do
    let (x, rest) ← value? n cs
    match skipBlanks rest with
    | ']' :: rest => return ([x], rest)
    | ',' :: rest =>
      let (xs, rest) ← elements? n rest
      return (x :: xs, rest)
    | _ => none

/-- Reads the members of a record up to its end. -/
def members? : Nat → List Char → Option (List (String × Value) × List Char)
  | 0, _ => none
  | n + 1, cs =>
    match skipBlanks cs with
    | '"' :: rest => do
      let (ns, rest) ← codesOf? rest
      let name ← charsOf? ns
      match skipBlanks rest with
      | ':' :: rest =>
        let (x, rest) ← value? n rest
        match skipBlanks rest with
        | '\x7d' :: rest => return ([(String.ofList name, x)], rest)
        | ',' :: rest =>
          let (xs, rest) ← members? n rest
          return ((String.ofList name, x) :: xs, rest)
        | _ => none
      | _ => none
    | _ => none

end

/-- The value that a text spells. Every level takes a character, so the length bounds the work. -/
def parse? (cs : List Char) : Option Value := do
  let (v, rest) ← value? (2 * cs.length + 1) cs
  if (skipBlanks rest).isEmpty then return v else none

/-! ## Writing -/

/-- The start of a line at a level. -/
def newLine (level : Nat) : List Char := '\n' :: List.replicate (2 * level) ' '

/-- Decimal digits behind a sign, if there is one. -/
def integer (n : Int) : List Char :=
  if n < 0 then '-' :: Nat.toDigits 10 n.natAbs else Nat.toDigits 10 n.natAbs

mutual

/-- Writes a value at a level. -/
def render (level : Nat) : Value → List Char
  | .null | .fraction | .brokenText => "null".toList
  | .bool true => "true".toList
  | .bool false => "false".toList
  | .integer n => integer n
  | .text s => quoted s
  | .list [] => ['[', ']']
  | .list xs => '[' :: renderElements (level + 1) xs ++ newLine level ++ [']']
  | .record [] => ['\x7b', '\x7d']
  | .record fs => '\x7b' :: renderMembers (level + 1) fs ++ newLine level ++ ['\x7d']

def renderElements (level : Nat) : List Value → List Char
  | [] => []
  | [x] => newLine level ++ render level x
  | x :: xs => newLine level ++ render level x ++ ',' :: renderElements level xs

def renderMembers (level : Nat) : List (String × Value) → List Char
  | [] => []
  | [(k, x)] => newLine level ++ quoted k ++ ':' :: ' ' :: render level x
  | (k, x) :: fs =>
    newLine level ++ quoted k ++ ':' :: ' ' :: render level x ++ ',' :: renderMembers level fs

end

end Jarwright.Document.Json
