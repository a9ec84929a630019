import Jarwright.Source.Letter

/-!
# Literals

The written forms of numbers, characters and texts in source files. A number is as long as the
longest of its forms that fits; a text may be cut into pieces by holes, which hold expressions.

* `numberLength?` and `characterLength?` measure a literal at the start of a text;
* `textPiece?` and `blockPiece?` measure a piece of a text literal and say how it ends.
-/

namespace Jarwright.Source

/-! ## Digits -/

/-- Whether a character is a hexadecimal digit. -/
def isHexDigit (c : Char) : Bool :=
  c.isDigit || ('a' ≤ c && c ≤ 'f') || ('A' ≤ c && c ≤ 'F')

/-- Whether a character is an octal digit. -/
def isOctalDigit (c : Char) : Bool := '0' ≤ c && c ≤ '7'

/-- The number of characters from here to the last digit, where `gap` underscores were just passed.
`lone` allows underscores one at a time only. -/
def digitsAfter (p : Char → Bool) (lone : Bool) (gap : Nat) : List Char → Nat
  | [] => 0
  | c :: cs =>
    if p c then gap + 1 + digitsAfter p lone 0 cs
    else if c = '_' then
      match lone, gap with
      | true, _ + 1 => 0
      | _, _ => digitsAfter p lone (gap + 1) cs
    else 0

/-- What is left after digits with underscores between them; there has to be a digit first. -/
def digits? (p : Char → Bool) (lone : Bool) (cs : List Char) : Option (List Char) :=
  match cs with
  | c :: rest => if p c then some (rest.drop (digitsAfter p lone 0 rest)) else none
  | [] => none

/-- The digits of a fraction or an exponent. -/
def decimals? (cs : List Char) : Option (List Char) := digits? Char.isDigit true cs

/-- The digits of a whole number: zero alone, or digits that start with no zero. One underscore can
follow the first digit, and any number of them the others. -/
def whole? : List Char → Option (List Char)
  | '0' :: cs => some cs
  | c :: cs =>
    if c.isDigit then
      let rest := match cs with
        | '_' :: rest => rest
        | cs => cs
      some ((digits? Char.isDigit false rest).getD cs)
    else none
  | [] => none

/-- What is left after one character of a set. -/
def one? (set : List Char) : List Char → Option (List Char)
  | c :: cs => if set.contains c then some cs else none
  | [] => none

/-- What is left after an optional part. -/
def optionally (part : List Char → Option (List Char)) (cs : List Char) : List Char :=
  (part cs).getD cs

/-- An exponent that one of the letters starts. -/
def exponent? (letters : List Char) (cs : List Char) : Option (List Char) := do
  let cs ← one? letters cs
  decimals? (optionally (one? ['+', '-']) cs)

/-- The mark of a long number. -/
def long? : List Char → Option (List Char) := one? ['l', 'L']

/-- The mark of a floating number. -/
def float? : List Char → Option (List Char) := one? ['f', 'F', 'd', 'D']

/-- A zero and a letter. -/
def radix? (letters : List Char) : List Char → Option (List Char)
  | '0' :: cs => one? letters cs
  | _ => none

/-- The digits of a hexadecimal number and an exponent behind them. An `e` that a sign follows may
start the exponent, though it is a digit as well. -/
def hexDigits? (cs : List Char) : Option (List Char) := do
  let rest ← digits? isHexDigit true cs
  let exponent := exponent? ['e', 'E', 'p', 'P']
  let after := (exponent rest).map (optionally float?)
  let last := cs.drop (cs.length - rest.length - 1)
  let within := if last.length < cs.length then
      match (cs.take (cs.length - last.length)).getLast? with
      | some '_' => none
      | _ => (exponent last).map (optionally float?)
    else none
  return (after.orElse fun _ => within).getD rest

/-! ## Numbers -/

/-- The forms of numbers. Each gives what is left after a number of its form. -/
def numberForms : List (List Char → Option (List Char)) := [
  -- whole numbers in the bases ten, sixteen, eight and two
  fun cs => do return optionally long? (← whole? cs),
  fun cs => do return optionally long? (← digits? isHexDigit true (← radix? ['x', 'X'] cs)),
  fun cs => do
    let cs ← (radix? ['o', 'O'] cs).orElse fun _ => one? ['0'] cs
    return optionally long? (← digits? isOctalDigit false cs),
  fun cs => do
    return optionally long? (← digits? (fun c => c == '0' || c == '1') false
      (← radix? ['b', 'B'] cs)),
  -- with a point, with digits before it or behind it
  fun cs => do
    let cs ← one? ['.'] (← decimals? cs)
    return optionally float? (optionally (exponent? ['e', 'E']) (optionally decimals? cs)),
  fun cs => do
    let cs ← decimals? (← one? ['.'] cs)
    return optionally float? (optionally (exponent? ['e', 'E']) cs),
  -- without a point
  fun cs => do return optionally float? (← exponent? ['e', 'E', 'p', 'P'] (← whole? cs)),
  fun cs => do float? (optionally (exponent? ['e', 'E']) (← whole? cs)),
  -- hexadecimal with a point or an exponent
  fun cs => do hexDigits? (← radix? ['x', 'X'] cs),
  fun cs => do
    let cs ← one? ['.'] (← digits? isHexDigit true (← radix? ['x', 'X'] cs))
    return optionally float? (optionally (exponent? ['e', 'E', 'p', 'P']) cs),
  fun cs => do
    let cs ← radix? ['x', 'X'] cs
    hexDigits? (← one? ['.'] (optionally (digits? isHexDigit true) cs))]

/-- The characters at the start of a text that could all belong to one number. -/
def numberFront (cs : List Char) : List Char :=
  cs.takeWhile fun c => c.isAlphanum || c == '_' || c == '.' || c == '+' || c == '-'

/-- The number of characters of the number at the start of a text. -/
def numberLength? (cs : List Char) : Option Nat :=
  let front := numberFront cs
  let lengths := numberForms.filterMap fun form =>
    (form front).map fun rest => front.length - rest.length
  lengths.foldl (fun best n => some (match best with
    | some m => if m < n then n else m
    | none => n)) none

/-! ## Characters and texts -/

/-- The number of characters of a character literal behind its opening quote, the closing quote
included. A backslash takes the next character with it, also the end of a line. -/
def characterTail? : List Char → Option Nat
  | [] => none
  | '\\' :: _ :: cs => (characterTail? cs).map (· + 2)
  | c :: cs =>
    if c = '\'' then some 1
    else if c = '\n' then none
    else (characterTail? cs).map (· + 1)

/-- The number of characters of the character literal at the start of a text. Nothing checks that it
holds a single character, but it holds one at least. -/
def characterLength? : List Char → Option Nat
  | '\'' :: '\'' :: _ => none
  | '\'' :: cs => (characterTail? cs).map (· + 1)
  | _ => none

/-- The number of characters behind a backslash that belong to it. -/
def escapeLength? : List Char → Option Nat
  | 'u' :: '\x7b' :: cs =>
    match cs.takeWhile isHexDigit, cs.dropWhile isHexDigit with
    | d :: ds, '\x7d' :: _ => some ((d :: ds).length + 3)
    | _, _ => none
  | 'u' :: cs =>
    if (cs.take 4).length = 4 ∧ (cs.take 4).all isHexDigit then some 5 else none
  | 'x' :: cs =>
    if (cs.take 2).length = 2 ∧ (cs.take 2).all isHexDigit then some 3 else none
  | c :: cs =>
    if isOctalDigit c then some (((cs.take 2).takeWhile isOctalDigit).length + 1) else some 1
  | [] => none

/-- How a piece of a text literal ends. -/
inductive PieceEnd where
  | quotes
  /-- A backslash and an opening brace: an expression follows. -/
  | hole
  deriving DecidableEq, Repr, Inhabited

/-- A measured piece with more characters in front of it. -/
def longer (n : Nat) (piece : Option (Nat × PieceEnd)) : Option (Nat × PieceEnd) :=
  piece.map fun (k, e) => (k + n, e)

/-- The number of characters of a piece of a text literal, what ends it included. The first
`skip` characters belong to what stands before them. -/
def textPieceFrom? : Nat → List Char → Option (Nat × PieceEnd)
  | _, [] => none
  | skip + 1, _ :: cs => longer 1 (textPieceFrom? skip cs)
  | 0, '"' :: _ => some (1, .quotes)
  | 0, '\\' :: '\x7b' :: _ => some (2, .hole)
  | 0, '\\' :: cs => (escapeLength? cs).bind fun k => longer 1 (textPieceFrom? k cs)
  | 0, _ :: cs => longer 1 (textPieceFrom? 0 cs)

/-- A piece of a text that starts here; it may hold ends of lines. -/
def textPiece? (cs : List Char) : Option (Nat × PieceEnd) := textPieceFrom? 0 cs

/-- The number of characters of the comment behind its opening, up to its end. -/
def blockCommentLength? : List Char → Option Nat
  | '*' :: '/' :: _ => some 2
  | _ :: cs => (blockCommentLength? cs).map (· + 1)
  | [] => none

/-- The number of characters of the comment at the start of a text. -/
def commentLength? : List Char → Option Nat
  | '/' :: '/' :: cs => some ((cs.takeWhile (· ≠ '\n')).length + 2)
  | '/' :: '*' :: cs => (blockCommentLength? cs).map (· + 2)
  | _ => none

/-- Whether a character separates tokens. -/
def isSeparator (c : Char) : Bool := c == ' ' || ('\t' ≤ c && c ≤ '\r')

/-- The number of characters of the comment at the start of a block's piece, if it holds what the
block would not take as it is; a comment without quotes and backslashes is text like any other. -/
def shieldedLength? (cs : List Char) : Option Nat :=
  match commentLength? cs with
  | some n => if (cs.take n).any fun c => c == '"' || c == '\\' then some n else none
  | none => none

/-- The number of characters of a piece of a text block, as for `textPieceFrom?`. A backslash that
starts no escape takes the next character with it. `fresh` says that nothing but separators and
comments came since the opening or the last backslash, for then a comment is passed over with the
quotes in it. -/
def blockPieceFrom? (fresh : Bool) : Nat → List Char → Option (Nat × PieceEnd)
  | _, [] => none
  | skip + 1, _ :: cs => longer 1 (blockPieceFrom? fresh skip cs)
  | 0, '"' :: '"' :: '"' :: _ => some (3, .quotes)
  | 0, '\\' :: '\x7b' :: _ => some (2, .hole)
  | 0, '\\' :: cs => longer 1 (blockPieceFrom? true ((escapeLength? cs).getD 1) cs)
  | 0, c :: cs =>
    match fresh, shieldedLength? (c :: cs) with
    | true, some n => longer 1 (blockPieceFrom? true (n - 1) cs)
    | _, _ => longer 1 (blockPieceFrom? (fresh && isSeparator c) 0 cs)

/-- A piece of a text block that starts here. -/
def blockPiece? (cs : List Char) : Option (Nat × PieceEnd) := blockPieceFrom? true 0 cs

end Jarwright.Source
