import Jarwright.Text.Shapeless

/-!
# Quoted text

The form in which a message shows a text it complains about: in double quotes, on one line, with
nothing hidden. The quote and the backslash are escaped, a few controls have short names, and every
other character without a shape is spelled by its number in hexadecimal.
-/

namespace Jarwright.Text

/-- Lower-case hexadecimal digits without leading zeros. -/
def hexNumber (n : Nat) : List Char := Nat.toDigits 16 n

/-- The form of one character inside quotes. -/
def quoteChar (c : Char) : List Char :=
  match c with
  | '"' => ['\\', '"']
  | '\\' => ['\\', '\\']
  | '\n' => ['\\', 'n']
  | '\r' => ['\\', 'r']
  | '\t' => ['\\', 't']
  | '\x00' => ['\\', '0']
  | c => if isShapeless c then ['\\', 'u', '\x7b'] ++ hexNumber c.toNat ++ ['\x7d'] else [c]

/-- The text in double quotes. -/
def quote (s : String) : String :=
  String.ofList ('"' :: s.toList.flatMap quoteChar ++ ['"'])

end Jarwright.Text
