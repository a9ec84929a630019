import Jarwright.ClassFile.Fault

/-!
# Descriptors

A descriptor spells the type of a field or the parameters and the result of a method. A class name
in it stands between an `L` and the next `;`, and everything else is copied when classes are
renamed.

* `Descriptor.scan` cuts a text into the class names and what stands between them;
* `Descriptor.map` renames the class names;
* `ClassName.map` does so for the name of a class constant, which is a descriptor when it names an
  array.
-/

namespace Jarwright.ClassFile

namespace Descriptor

/-- A text cut at its class names: each span is the text before a name, up to and with its `L`,
and the name. The tail is what follows the last name, and there is none when a name does not
end. -/
structure Scan where
  spans : List (List Char × List Char)
  tail : Option (List Char)
  deriving DecidableEq, Repr, Inhabited

/-- A scan with one more span in front. -/
def Scan.cons (span : List Char × List Char) (s : Scan) : Scan := ⟨span :: s.spans, s.tail⟩

mutual

/-- Scans outside of names; `text` holds the characters since the last name, latest first. -/
def scanText (text : List Char) : List Char → Scan
  | [] => ⟨[], some text.reverse⟩
  | c :: cs =>
    if c = 'L' then scanName ('L' :: text).reverse [] cs else scanText (c :: text) cs

/-- Scans a name; `text` stands before it and `name` holds its characters, latest first. -/
def scanName (text name : List Char) : List Char → Scan
  | [] => ⟨[], none⟩
  | c :: cs =>
    if c = ';' then (scanText [';'] cs).cons (text, name.reverse)
    else scanName text (c :: name) cs

end

/-- Cuts a text at its class names. -/
def scan (cs : List Char) : Scan := scanText [] cs

/-- The class names of a descriptor in order, also those before a name that does not end. -/
def classNames (descriptor : String) : List String :=
  (scan descriptor.toList).spans.map fun s => String.ofList s.2

/-- Spans and tail put together again, with each name replaced. -/
def render (f : String → String) (spans : List (List Char × List Char)) (tail : List Char) :
    List Char :=
  spans.flatMap (fun s => s.1 ++ (f (String.ofList s.2)).toList) ++ tail

/-- Renames the classes of a descriptor. -/
def map (f : String → String) (descriptor : String) : Except Fault String :=
  let s := scan descriptor.toList
  match s.tail with
  | some tail => .ok (String.ofList (render f s.spans tail))
  | none => .error (.badDescriptor descriptor)

end Descriptor

namespace ClassName

/-- Whether the name of a class constant names an array. -/
def isArray (name : String) : Bool :=
  match name.toList with
  | '[' :: _ => true
  | _ => false

/-- The class names that the name of a class constant holds. -/
def classNames (name : String) : List String :=
  if isArray name then Descriptor.classNames name else [name]

/-- Renames the classes of a class constant. -/
def map (f : String → String) (name : String) : Except Fault String :=
  if isArray name then Descriptor.map f name else .ok (f name)

end ClassName

end Jarwright.ClassFile
