import Jarwright.Text.Blank

/-!
# Templates

A template is a text with placeholders, which are names in braces. `expand` fills in the values of
names one after the other, each at all its places.
-/

namespace Jarwright.Settings

/-- Puts `new` in the place of each occurrence of `old`, from left to right; the first `skip`
characters belong to an occurrence that has been replaced. -/
def replaceFrom (old new : List Char) (skip : Nat) : List Char → List Char
  | [] => []
  | c :: cs =>
    match skip with
    | k + 1 => replaceFrom old new k cs
    | 0 =>
      if Text.startsWith old (c :: cs) then new ++ replaceFrom old new (old.length - 1) cs
      else c :: replaceFrom old new 0 cs

/-- Puts `new` in the place of each occurrence of `old`. -/
def replaceAll (old new cs : List Char) : List Char := replaceFrom old new 0 cs

/-- The placeholder of a name. -/
def placeholder (name : String) : List Char := '\x7b' :: name.toList ++ ['\x7d']

/-- Fills in values for the placeholders of names. -/
def expand (template : String) (values : List (String × String)) : String :=
  String.ofList (values.foldl (fun text (name, value) =>
    replaceAll (placeholder name) value.toList text) template.toList)

end Jarwright.Settings
