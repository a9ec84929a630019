import Jarwright.Bytes
import Jarwright.Document.Table

/-!
# TOML

The format of settings files: headings in brackets, and assignments of values to dotted names, one
to a line. Values are texts in four spellings, integers of 64 bits, truth values, lists and inline
tables. Fractions and dates are refused: no setting takes them.

* `Toml.parse?` reads a text as one record.
-/

namespace Jarwright.Document.Toml

/-! ## Blanks, comments and ends of lines -/

def isBlank (c : Char) : Bool := c == ' ' || c == '\t'

def skipBlanks (cs : List Char) : List Char := cs.dropWhile isBlank

/-- Whether a character may stand in a comment or a text as it is. -/
def isPlain (c : Char) : Bool := c == '\t' || (32 ≤ c.toNat && c.toNat != 127)

/-- What is left behind the end of a line. -/
def newLine? : List Char → Option (List Char)
  | '\n' :: cs => some cs
  | '\r' :: '\n' :: cs => some cs
  | _ => none

/-- What is left behind a comment, if there is one. -/
def skipComment : List Char → List Char
  | '#' :: cs => cs.dropWhile isPlain
  | cs => cs

/-- What is left behind the rest of a line in which nothing more is said. -/
def endLine? (cs : List Char) : Option (List Char) :=
  match skipComment (skipBlanks cs) with
  | [] => some []
  | rest => newLine? rest

/-- Skips blanks, comments and line ends; the number bounds how many lines. -/
def skipLines : Nat → List Char → List Char
  | 0, cs => cs
  | n + 1, cs =>
    let rest := skipComment (skipBlanks cs)
    match newLine? rest with
    | some rest => skipLines n rest
    | none => rest

/-! ## Texts -/

/-- The character whose number some digits spell. -/
def charOf? (digits : List Char) : Option Char := do
  let values ← digits.mapM Bytes.hexValue?
  let n := values.foldl (fun n d => n * 16 + d) 0
  if n < 0xd800 ∨ (0xe000 ≤ n ∧ n < 0x110000) then some (Char.ofNat n) else none

/-- The character that `width` digits spell, and what follows them. -/
def numbered? (width : Nat) (cs : List Char) : Option (Char × List Char) :=
  if cs.length < width then none
  else (charOf? (cs.take width)).map fun c => (c, cs.drop width)

/-- What stands behind a backslash, and what follows it. -/
def escaped? : List Char → Option (Char × List Char)
  | 'b' :: cs => some ('\x08', cs)
  | 't' :: cs => some ('\t', cs)
  | 'n' :: cs => some ('\n', cs)
  | 'f' :: cs => some ('\x0c', cs)
  | 'r' :: cs => some ('\r', cs)
  | '"' :: cs => some ('"', cs)
  | '\\' :: cs => some ('\\', cs)
  | 'u' :: cs => numbered? 4 cs
  | 'U' :: cs => numbered? 8 cs
  | _ => none

/-- Reads a text up to its closing quote; `raw` texts have no escapes. The number bounds the
length. -/
def line? (quote : Char) (raw : Bool) : Nat → List Char → Option (List Char × List Char)
  | 0, _ => none
  | _, [] => none
  | n + 1, c :: cs =>
    if c = quote then some ([], cs)
    else if c = '\\' ∧ !raw then do
      let (d, rest) ← escaped? cs
      let (text, rest) ← line? quote raw n rest
      return (d :: text, rest)
    else if isPlain c then (line? quote raw n cs).map fun (text, rest) => (c :: text, rest)
    else none

/-- Skips blanks and line ends. -/
def skipSpace : List Char → List Char
  | '\r' :: '\n' :: cs => skipSpace cs
  | c :: cs => if isBlank c || c == '\n' then skipSpace cs else c :: cs
  | [] => []

/-- Reads a text over several lines up to three quotes, before which two more may stand. A
backslash at the end of a line takes away the blanks and line ends behind it. -/
def lines? (quote : Char) (raw : Bool) : Nat → List Char → Option (List Char × List Char)
  | 0, _ => none
  | _, [] => none
  | n + 1, c :: cs =>
    if c = quote then
      let quotes := (c :: cs).takeWhile (· == quote)
      let rest := (c :: cs).dropWhile (· == quote)
      if quotes.length < 3 then
        (lines? quote raw n rest).map fun (text, rest) => (quotes ++ text, rest)
      else if quotes.length ≤ 5 then some (quotes.drop 3, rest)
      else none
    else if c = '\\' ∧ !raw then
      match newLine? (skipBlanks cs) with
      | some rest => lines? quote raw n (skipSpace rest)
      | none => do
        let (d, rest) ← escaped? cs
        let (text, rest) ← lines? quote raw n rest
        return (d :: text, rest)
    else match newLine? (c :: cs) with
      | some rest => (lines? quote raw n rest).map fun (text, rest) => ('\n' :: text, rest)
      | none =>
        if isPlain c then (lines? quote raw n cs).map fun (text, rest) => (c :: text, rest)
        else none

/-- Reads a text behind its first quote. A line end right behind three quotes is no part of it. -/
def text? (quote : Char) (cs : List Char) : Option (List Char × List Char) :=
  let raw := quote == '\''
  match cs with
  | c :: d :: rest =>
    if c = quote ∧ d = quote then lines? quote raw (rest.length + 1) ((newLine? rest).getD rest)
    else line? quote raw (cs.length + 1) cs
  | _ => line? quote raw (cs.length + 1) cs

/-! ## Names -/

def isBare (c : Char) : Bool := c.isAlphanum || c == '_' || c == '-'

/-- Reads a name: bare, or a text on one line. -/
def name? (cs : List Char) : Option (String × List Char) :=
  match cs with
  | '"' :: rest => (line? '"' false (rest.length + 1) rest).map fun (t, r) => (String.ofList t, r)
  | '\'' :: rest => (line? '\'' true (rest.length + 1) rest).map fun (t, r) => (String.ofList t, r)
  | _ =>
    let bare := cs.takeWhile isBare
    if bare.isEmpty then none else some (String.ofList bare, cs.dropWhile isBare)

/-- Reads names with dots between them; the number bounds how many. -/
def path? : Nat → List Char → Option (List String × List Char)
  | 0, _ => none
  | n + 1, cs => do
    let (name, rest) ← name? (skipBlanks cs)
    match skipBlanks rest with
    | '.' :: rest =>
      let (names, rest) ← path? n rest
      return (name :: names, rest)
    | rest => return ([name], rest)

/-! ## Numbers -/

/-- The digits of a number that may have underscores between them, and what follows. -/
def grouped (isDigit : Char → Bool) : List Char → List Char × List Char
  | '_' :: c :: cs =>
    if isDigit c then
      let (ds, rest) := grouped isDigit cs
      (c :: ds, rest)
    else ([], '_' :: c :: cs)
  | c :: cs =>
    if isDigit c then
      let (ds, rest) := grouped isDigit cs
      (c :: ds, rest)
    else ([], c :: cs)
  | [] => ([], [])

/-- Reads the digits of a number, of which at least one comes before any underscore. -/
def digits? (base : Nat) (cs : List Char) : Option (Nat × List Char) :=
  let isDigit (c : Char) : Bool :=
    match Bytes.hexValue? c with
    | some v => v < base
    | none => false
  match cs with
  | '_' :: _ => none
  | _ =>
    match grouped isDigit cs with
    | ([], _) => none
    | (ds, rest) => some (ds.foldl (fun n d => n * base + (Bytes.hexValue? d).getD 0) 0, rest)

/-- Reads a decimal number, which has no needless zero in front. -/
def decimal? : List Char → Option (Nat × List Char)
  | '0' :: cs => some (0, cs)
  | cs => digits? 10 cs

/-- Reads an integer of 64 bits. -/
def integer? (cs : List Char) : Option (Value × List Char) := do
  let (n, rest) ← match cs with
    | '0' :: 'x' :: cs => (digits? 16 cs).map fun (n, r) => ((n : Int), r)
    | '0' :: 'o' :: cs => (digits? 8 cs).map fun (n, r) => ((n : Int), r)
    | '0' :: 'b' :: cs => (digits? 2 cs).map fun (n, r) => ((n : Int), r)
    | '+' :: cs => (decimal? cs).map fun (n, r) => ((n : Int), r)
    | '-' :: cs => (decimal? cs).map fun (n, r) => (-(n : Int), r)
    | cs => (decimal? cs).map fun (n, r) => ((n : Int), r)
  if Int64.minValue.toInt ≤ n ∧ n ≤ Int64.maxValue.toInt then return (.integer n, rest) else none

/-! ## Values -/

mutual

/-- Reads a value. The number bounds nesting and the lengths of lists and tables together. -/
def value? : Nat → List Char → Option (Value × List Char)
  | 0, _ => none
  | n + 1, cs =>
    match cs with
    | '"' :: rest => (text? '"' rest).map fun (t, r) => (.text (String.ofList t), r)
    | '\'' :: rest => (text? '\'' rest).map fun (t, r) => (.text (String.ofList t), r)
    | 't' :: 'r' :: 'u' :: 'e' :: rest => some (.bool true, rest)
    | 'f' :: 'a' :: 'l' :: 's' :: 'e' :: rest => some (.bool false, rest)
    | '[' :: rest => (elements? n rest).map fun (xs, r) => (.list xs, r)
    | '\x7b' :: rest =>
      match skipBlanks rest with
      | '\x7d' :: rest => some (.record [], rest)
      | rest => do
        let (fs, rest) ← members? n rest
        return (← Table.record? fs, rest)
    | cs => integer? cs

/-- Reads the elements of a list up to its end; a comma may stand behind the last one. -/
def elements? : Nat → List Char → Option (List Value × List Char)
  | 0, _ => none
  | n + 1, cs =>
    match skipLines cs.length cs with
    | ']' :: rest => some ([], rest)
    | rest => do
      let (x, rest) ← value? n rest
      match skipLines rest.length rest with
      | ']' :: rest => return ([x], rest)
      | ',' :: rest =>
        let (xs, rest) ← elements? n rest
        return (x :: xs, rest)
      | _ => none

/-- Reads the assignments of an inline table up to its end. -/
def members? : Nat → List Char → Option (List (List String × Value) × List Char)
  | 0, _ => none
  | n + 1, cs => do
    let (path, rest) ← path? (cs.length + 1) cs
    match rest with
    | '=' :: rest =>
      let (x, rest) ← value? n (skipBlanks rest)
      match skipBlanks rest with
      | '\x7d' :: rest => return ([(path, x)], rest)
      | ',' :: rest =>
        let (xs, rest) ← members? n rest
        return ((path, x) :: xs, rest)
      | _ => none
    | _ => none

end

/-! ## Files -/

/-- What has been read, and the heading that is open. -/
structure State where
  table : Table
  heading : List String

/-- Reads a heading behind its bracket. -/
def readHeading? (s : State) (cs : List Char) : Option (State × List Char) := do
  let (path, rest) ← path? (cs.length + 1) cs
  match rest with
  | ']' :: rest => return (⟨← s.table.heading? path, path⟩, rest)
  | _ => none

/-- Reads an assignment. -/
def readAssignment? (s : State) (cs : List Char) : Option (State × List Char) := do
  let (path, rest) ← path? (cs.length + 1) cs
  match rest with
  | '=' :: rest =>
    let (v, rest) ← value? (2 * rest.length + 1) (skipBlanks rest)
    return ({ s with table := ← s.table.assignUnder? path v s.heading }, rest)
  | _ => none

/-- Reads the rest of a file; the number bounds how many headings and assignments. -/
def read? (s : State) : Nat → List Char → Option Table
  | 0, _ => none
  | n + 1, cs =>
    match skipLines cs.length cs with
    | [] => some s.table
    | '[' :: rest => do
      let (s, rest) ← readHeading? s rest
      read? s n (← endLine? rest)
    | rest => do
      let (s, rest) ← readAssignment? s rest
      read? s n (← endLine? rest)

/-- The record that a text spells; a mark of byte order in front is passed over. -/
def parse? (cs : List Char) : Option Value :=
  let cs := match cs with
    | '\ufeff' :: rest => rest
    | cs => cs
  (read? ⟨[], []⟩ (cs.length + 1) cs).map Table.toValue

end Jarwright.Document.Toml
