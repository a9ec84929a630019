import Jarwright.Renaming.Constants

/-!
# Renaming in attributes

An attribute whose payload can mention a name is taken apart and written again; every other payload
is kept byte for byte. Debug attributes are left out.

* `strippedFromClass` and `strippedFromCode` name the attributes that are left out;
* `Context.leafPayload` handles those that may stand anywhere;
* `codePayload`, `methodPayload`, `recordPayload`, `classPayload` add those of one place.
-/

namespace Jarwright.Renaming

open ClassFile

/-- Attributes of a class that only debuggers read. -/
def strippedFromClass : List String := ["SourceFile", "SourceDebugExtension"]

/-- Attributes of a method body that only debuggers read. -/
def strippedFromCode : List String :=
  ["LineNumberTable", "LocalVariableTable", "LocalVariableTypeTable"]

/-- Edits the payloads of a list by their names, without those whose names are stripped. -/
def editPayloads (ctx : Context) (stripped : List String)
    (payload : String → Bytes → ConstantPool.Edit Bytes) :
    List Attribute → ConstantPool.Edit (List Attribute)
  | [] => return []
  | a :: rest => do
    let name ← lookUp (ctx.oldPool.utf8 a.name)
    if stripped.contains name then editPayloads ctx stripped payload rest
    else
      let new ← payload name a.payload
      let more ← editPayloads ctx stripped payload rest
      return ⟨a.name, new⟩ :: more

/-- What follows the last `$` of a name and any digits behind it. -/
def simpleTail (cs : List Char) : List Char :=
  (Signature.afterDollar cs).dropWhile Char.isDigit

/-- The simple name of a class by its new binary name: what follows the last `$` and any digits
behind it. The old simple name is kept where that is nothing. -/
def newSimpleName (binary simple : String) : String :=
  if binary.toList.contains '$' then
    match simpleTail binary.toList with
    | [] => simple
    | tail => String.ofList tail
  else simple

/-- An entry of the list of inner classes. -/
structure InnerClass where
  inner : UInt16
  outer : UInt16
  name : UInt16
  flags : UInt16
  deriving DecidableEq, Repr, Inhabited

/-- The four numbers of an entry. -/
def InnerClass.encode (c : InnerClass) : Bytes :=
  putU2 c.inner ++ putU2 c.outer ++ putU2 c.name ++ putU2 c.flags

/-- A component of a record. -/
structure Component where
  name : UInt16
  descriptor : UInt16
  attributes : List Attribute
  deriving DecidableEq, Repr, Inhabited

/-- A component's indices and attributes. -/
def Component.encode (c : Component) : Bytes :=
  putU2 c.name ++ putU2 c.descriptor ++ Attribute.encodeAll c.attributes

namespace Context

/-- Edits the index of a signature. -/
def signaturePayload (ctx : Context) (site : Signature.Site) (payload : Bytes) :
    ConstantPool.Edit Bytes := do
  let index ← lookUp (Reader.eval (Reader.whole (.badLayout .signature) Reader.u2) payload)
  let old ← lookUp (ctx.oldPool.utf8 index)
  let new ← lookUp (Signature.map site ctx.resolver.type old)
  return putU2 (← ctx.exchangeText index new)

/-- Edits a payload that may stand in any place; a signature is read for its site. -/
def leafPayload (ctx : Context) (site : Signature.Site) (name : String) (payload : Bytes) :
    ConstantPool.Edit Bytes :=
  if name = "Signature" then ctx.signaturePayload site payload
  else if name = "RuntimeVisibleAnnotations" ∨ name = "RuntimeInvisibleAnnotations" then do
    let trees ← Payload.run .annotations (readTrees ctx.exchangeDescriptor) payload
    return putList AnnotationTree.encode trees
  else if name = "RuntimeVisibleParameterAnnotations"
      ∨ name = "RuntimeInvisibleParameterAnnotations" then do
    let parameters ←
      Payload.run .parameterAnnotations (readParameters ctx.exchangeDescriptor) payload
    return Bytes.bigEndian 1 parameters.length ++ parameters.flatMap (putList AnnotationTree.encode)
  else if name = "RuntimeVisibleTypeAnnotations" ∨ name = "RuntimeInvisibleTypeAnnotations" then do
    let uses ← Payload.run .typeAnnotations (readTypeUses ctx.exchangeDescriptor) payload
    return putList TypeUse.encode uses
  else return payload

/-- Edits the body of a method. -/
def codePayload (ctx : Context) (payload : Bytes) : ConstantPool.Edit Bytes := do
  let code ← lookUp (Code.parse payload)
  let attributes ←
    editPayloads ctx strippedFromCode (ctx.leafPayload .fieldSite) code.attributes
  return Code.encode { code with attributes }

/-- Edits a payload of a method. -/
def methodPayload (ctx : Context) (name : String) (payload : Bytes) : ConstantPool.Edit Bytes :=
  if name = "Code" then ctx.codePayload payload
  else if name = "AnnotationDefault" then do
    let value ←
      Payload.run .annotationDefault (readElementValue ctx.exchangeDescriptor) payload
    return value.encode
  else ctx.leafPayload .methodSite name payload

/-- Reads an inner class with its new simple name; a class without a name keeps none. -/
def readInnerClass (ctx : Context) : Payload InnerClass := do
  let inner ← Payload.read Reader.u2
  let outer ← Payload.read Reader.u2
  let name ← Payload.read Reader.u2
  let flags ← Payload.read Reader.u2
  if name = 0 then return ⟨inner, outer, name, flags⟩
  else
    let binary ← Payload.edit (lookUp (ctx.oldPool.className inner))
    let simple ← Payload.edit (lookUp (ctx.oldPool.utf8 name))
    let new := newSimpleName (ctx.resolver.type binary) simple
    let name ← Payload.edit (ctx.exchangeText name new)
    return ⟨inner, outer, name, flags⟩

/-- Reads a counted list of inner classes. -/
def readInnerClasses (ctx : Context) : Payload (List InnerClass) := do
  let count ← Payload.read Reader.u2
  Reader.times count.toNat ctx.readInnerClass

/-- Reads the class and the method around a class, with the method's new name; there may be no
method. -/
def readEnclosingMethod (ctx : Context) : Payload (UInt16 × UInt16) := do
  let owner ← Payload.read Reader.u2
  let method ← Payload.read Reader.u2
  if method = 0 then return (owner, method)
  else
    let new ← Payload.edit (ctx.memberRef .method owner method)
    return (owner, new.getD method)

/-- Reads a component of a record with its new name and descriptor. -/
def readComponent (ctx : Context) : Payload Component := do
  let name ← Payload.read Reader.u2
  let descriptor ← Payload.read Reader.u2
  let oldName ← Payload.edit (lookUp (ctx.oldPool.utf8 name))
  let oldDescriptor ← Payload.edit (lookUp (ctx.oldPool.utf8 descriptor))
  let newName := ctx.resolver.field ctx.owner oldName oldDescriptor
  let newDescriptor ← Payload.edit (lookUp (ctx.resolver.descriptor oldDescriptor))
  let name ← Payload.edit (ctx.exchangeText name newName)
  let descriptor ← Payload.edit (ctx.exchangeText descriptor newDescriptor)
  let attributes ← Payload.read Attribute.readAll
  let attributes ← Payload.edit (editPayloads ctx [] (ctx.leafPayload .fieldSite) attributes)
  return ⟨name, descriptor, attributes⟩

/-- Reads a counted list of components. -/
def readComponents (ctx : Context) : Payload (List Component) := do
  let count ← Payload.read Reader.u2
  Reader.times count.toNat ctx.readComponent

/-- Edits a payload of a class. -/
def classPayload (ctx : Context) (name : String) (payload : Bytes) : ConstantPool.Edit Bytes :=
  if name = "InnerClasses" then do
    return putList InnerClass.encode (← Payload.run .innerClasses ctx.readInnerClasses payload)
  else if name = "EnclosingMethod" then do
    let (owner, method) ← Payload.run .enclosingMethod ctx.readEnclosingMethod payload
    return putU2 owner ++ putU2 method
  else if name = "Record" then do
    return putList Component.encode (← Payload.run .record ctx.readComponents payload)
  else ctx.leafPayload .classSite name payload

end Context

end Jarwright.Renaming
