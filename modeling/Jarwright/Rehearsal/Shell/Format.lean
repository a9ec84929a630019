import Jarwright.Rehearsal.Shell.Number
import Jarwright.Text.Utf8

/-!
# Written output of the shell

* `unescaped` gives the bytes of a text with backslashes;
* `printed` fills a format with arguments, again and again while some are left.
-/

namespace Jarwright.Rehearsal.Shell

/-- The value of up to `n` octal digits, and what follows. -/
def octal (value : Nat) : Nat → List Char → Nat × List Char
  | n + 1, c :: cs =>
    if '0' ≤ c ∧ c ≤ '7' then octal (value * 8 + (c.toNat - 48)) n cs else (value, c :: cs)
  | _, cs => (value, cs)

/-- The byte of a letter behind a backslash. -/
def control? : Char → Option UInt8
  | 'a' => some 7
  | 'b' => some 8
  | 'f' => some 12
  | 'n' => some 10
  | 'r' => some 13
  | 't' => some 9
  | 'v' => some 11
  | '\\' => some 92
  | _ => none

/-- The bytes of what stands behind a backslash, and what follows. Octal numbers need a zero in
front where `zero` says so. -/
def escape (zero : Bool) (cs : List Char) : Bytes × List Char :=
  match cs with
  | [] => ([92], [])
  | c :: rest =>
    match control? c with
    | some b => ([b], rest)
    | none =>
      if '0' ≤ c ∧ c ≤ '7' ∧ (!zero ∨ c = '0') then
        let (value, rest) := octal 0 3 (if zero then rest else cs)
        ([UInt8.ofNat value], rest)
      else ([92], cs)

/-- The bytes of a text with escapes; the number bounds its length. -/
def unescape (zero : Bool) : Nat → List Char → Bytes
  | 0, _ => []
  | _, [] => []
  | n + 1, '\\' :: cs =>
    let (bytes, rest) := escape zero cs
    bytes ++ unescape zero n rest
  | n + 1, c :: cs => Text.Utf8.encode [c] ++ unescape zero n cs

/-- The bytes of a text with escapes. -/
def unescaped (zero : Bool) (cs : List Char) : Bytes := unescape zero (cs.length + 1) cs

/-- How an argument is written: on the left side or the right one, with zeros or blanks, and on
how many places. -/
structure Field where
  left : Bool
  zeros : Bool
  width : Nat
  deriving DecidableEq, Repr, Inhabited

/-- Reads a field in front of its letter. -/
def fieldOf (cs : List Char) : Field × List Char :=
  let flags := cs.takeWhile fun c => c == '-' || c == '0'
  let rest := cs.drop flags.length
  let digits := rest.takeWhile Char.isDigit
  (⟨flags.contains '-', flags.contains '0',
    digits.foldl (fun n d => n * 10 + (d.toNat - 48)) 0⟩, rest.drop digits.length)

/-- Fills a text up to the width of a field. -/
def Field.fill (f : Field) (number : Bool) (cs : List Char) : List Char :=
  let missing := f.width - cs.length
  if f.left then cs ++ List.replicate missing ' '
  else if f.zeros && number then
    match cs with
    | '-' :: ds => '-' :: List.replicate missing '0' ++ ds
    | ds => List.replicate missing '0' ++ ds
  else List.replicate missing ' ' ++ cs

/-- The text of an integer. -/
def decimalText (i : Int) : List Char :=
  match i with
  | .ofNat n => Text.decimal n
  | .negSucc n => '-' :: Text.decimal (n + 1)

/-- Fills a format once; the number bounds its length. -/
def fillOnce : Nat → List Char → List (List Char) → Bytes × List (List Char)
  | 0, _, args => ([], args)
  | _, [], args => ([], args)
  | n + 1, '%' :: '%' :: cs, args =>
    let (bytes, args) := fillOnce n cs args
    (37 :: bytes, args)
  | n + 1, '%' :: cs, args =>
    let (field, rest) := fieldOf cs
    let next (bytes : Bytes) (cs : List Char) (args : List (List Char)) :
        Bytes × List (List Char) :=
      let (more, args) := fillOnce n cs args
      (bytes ++ more, args)
    let arg := args.headD []
    match rest with
    | 's' :: cs => next (Text.Utf8.encode (field.fill false arg)) cs (args.drop 1)
    | 'b' :: cs => next (unescaped true arg) cs (args.drop 1)
    | 'c' :: cs => next (Text.Utf8.encode (field.fill false (arg.take 1))) cs (args.drop 1)
    | 'd' :: cs | 'i' :: cs | 'u' :: cs =>
      next (Text.Utf8.encode (field.fill true (decimalText ((integer? arg).getD 0)))) cs
        (args.drop 1)
    | 'x' :: cs =>
      next (Text.Utf8.encode (field.fill true (Nat.toDigits 16 ((integer? arg).getD 0).toNat))) cs
        (args.drop 1)
    | 'o' :: cs =>
      next (Text.Utf8.encode (field.fill true (Nat.toDigits 8 ((integer? arg).getD 0).toNat))) cs
        (args.drop 1)
    | _ => next [37] cs args
  | n + 1, '\\' :: cs, args =>
    let (bytes, rest) := escape false cs
    let (more, args) := fillOnce n rest args
    (bytes ++ more, args)
  | n + 1, c :: cs, args =>
    let (bytes, args) := fillOnce n cs args
    (Text.Utf8.encode [c] ++ bytes, args)

/-- Fills a format as long as arguments are left; the number bounds how often. -/
def fillAll (format : List Char) : Nat → List (List Char) → Bytes
  | 0, _ => []
  | n + 1, args =>
    let (bytes, rest) := fillOnce (format.length + 1) format args
    if rest.isEmpty || rest.length == args.length then bytes
    else bytes ++ fillAll format n rest

/-- The bytes that a format makes of its arguments. -/
def printed (format : List Char) (args : List (List Char)) : Bytes :=
  fillAll format (args.length + 1) args

end Jarwright.Rehearsal.Shell
