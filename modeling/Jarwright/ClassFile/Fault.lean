import Jarwright.Text.Quoted

/-!
# What can be wrong with a class file

* `Kind` names the kinds of constants;
* `Layout` names the structures that have to fill their attribute exactly;
* `Fault` lists the causes for which a class file is refused, `Fault.message` words them.
-/

namespace Jarwright.ClassFile

/-- The kinds of entries of a constant pool. -/
inductive Kind where
  | unusable | utf8 | integer | float | long | double | classRef | string | fieldRef | methodRef
  | interfaceMethodRef | nameAndType | methodHandle | methodType | dynamic | invokeDynamic
  | moduleRef | packageRef
  deriving DecidableEq, Repr, Inhabited

/-- The name of a kind in the class-file format. -/
def Kind.name : Kind → String
  | .unusable => "Unusable"
  | .utf8 => "Utf8"
  | .integer => "Integer"
  | .float => "Float"
  | .long => "Long"
  | .double => "Double"
  | .classRef => "Class"
  | .string => "String"
  | .fieldRef => "Fieldref"
  | .methodRef => "Methodref"
  | .interfaceMethodRef => "InterfaceMethodref"
  | .nameAndType => "NameAndType"
  | .methodHandle => "MethodHandle"
  | .methodType => "MethodType"
  | .dynamic => "Dynamic"
  | .invokeDynamic => "InvokeDynamic"
  | .moduleRef => "Module"
  | .packageRef => "Package"

/-- Structures whose bytes have to be used up exactly. -/
inductive Layout where
  | code | signature | innerClasses | enclosingMethod | record | annotations
  | parameterAnnotations | typeAnnotations | annotationDefault | elementValue
  | typeAnnotationTarget
  deriving DecidableEq, Repr, Inhabited

/-- How a message calls a structure. -/
def Layout.name : Layout → String
  | .code => "Code"
  | .signature => "Signature"
  | .innerClasses => "InnerClasses"
  | .enclosingMethod => "EnclosingMethod"
  | .record => "Record"
  | .annotations => "annotations"
  | .parameterAnnotations => "parameter annotations"
  | .typeAnnotations => "type annotations"
  | .annotationDefault => "AnnotationDefault"
  | .elementValue => "annotation element value"
  | .typeAnnotationTarget => "type annotation target"

/-- Why a class file cannot be read, edited or written. -/
inductive Fault where
  /-- The input ended inside a structure. -/
  | truncated
  /-- Bytes were left over after a structure that has to fill its slice. -/
  | trailingBytes (count : Nat)
  | badMagic (magic : UInt32)
  /-- No constant can be used at this index. -/
  | badIndex (index : UInt16)
  | unknownTag (tag : UInt8)
  | wrongKind (index : UInt16) (expected found : Kind)
  /-- The entries of a pool occupy another number of slots than declared. -/
  | slotCount (declared slots : Nat)
  | poolFull
  /-- A replacement would turn a constant of one slot into one of two, or back. -/
  | slotWidth (index : UInt16)
  /-- A text constant of this many bytes cannot be written. -/
  | stringTooLong (size : Nat)
  | badModifiedUtf8
  | badDescriptor (descriptor : String)
  | badSignature (signature : String)
  | badLayout (layout : Layout)
  deriving DecidableEq, Repr, Inhabited

/-- Eight lower-case hexadecimal digits. -/
def hexWord (n : UInt32) : String :=
  let digits := Text.hexNumber n.toNat
  String.ofList (List.replicate (8 - digits.length) '0' ++ digits)

/-- The wording of a fault. -/
def Fault.message : Fault → String
  | .truncated => "class file is truncated"
  | .trailingBytes n => s!"{n} bytes left over after a structure"
  | .badMagic m => s!"not a class file (magic 0x{hexWord m})"
  | .badIndex i => s!"no usable constant at index {i}"
  | .unknownTag t => s!"unknown constant tag {t}"
  | .wrongKind i expected found => s!"constant #{i} is {found.name}, expected {expected.name}"
  | .slotCount declared slots =>
    s!"constant pool declares {declared} slots but its entries occupy {slots}"
  | .poolFull => "constant pool has no free slots left"
  | .slotWidth i => s!"replacing constant #{i} would change its slot width"
  | .stringTooLong n => s!"string constant of {n} bytes does not fit in a Utf8 entry"
  | .badModifiedUtf8 => "Utf8 constant is not valid modified UTF-8"
  | .badDescriptor d => s!"malformed descriptor {Text.quote d}"
  | .badSignature g => s!"malformed generic signature {Text.quote g}"
  | .badLayout l => s!"{l.name} attribute does not match its layout"

end Jarwright.ClassFile
