import Jarwright.Renaming.Attributes

/-!
# Renaming a class

`rename` takes a class file through a resolver: first its pool, then its fields and methods, then
its own attributes. Indices keep their meaning, so bytecode is not looked at.
-/

namespace Jarwright.Renaming

open ClassFile

/-- A class file after a renaming, with the name of the class before and after. -/
structure RenamedClass where
  oldName : String
  name : String
  bytes : Bytes
  deriving DecidableEq, Repr, Inhabited

namespace Context

/-- Edits a payload of a field. -/
def fieldPayload (ctx : Context) : String → Bytes → ConstantPool.Edit Bytes :=
  ctx.leafPayload .fieldSite

/-- Edits a payload of a member. -/
def memberPayload (ctx : Context) : MemberKind → String → Bytes → ConstantPool.Edit Bytes
  | .field => ctx.fieldPayload
  | .method => ctx.methodPayload

/-- Renames a declared member. -/
def renameMember (ctx : Context) (kind : MemberKind) (m : Member) :
    ConstantPool.Edit Member := do
  let name ← lookUp (ctx.oldPool.utf8 m.name)
  let descriptor ← lookUp (ctx.oldPool.utf8 m.descriptor)
  let newName := ctx.memberName kind ctx.owner name descriptor
  let newDescriptor ← lookUp (ctx.resolver.descriptor descriptor)
  let nameIndex ← ctx.exchangeText m.name newName
  let descriptorIndex ← ctx.exchangeText m.descriptor newDescriptor
  let attributes ← editPayloads ctx [] (ctx.memberPayload kind) m.attributes
  return ⟨m.flags, nameIndex, descriptorIndex, attributes⟩

/-- Renames declared members in order. -/
def renameMembers (ctx : Context) (kind : MemberKind) :
    List Member → ConstantPool.Edit (List Member)
  | [] => return []
  | m :: rest => do
    let m ← ctx.renameMember kind m
    let rest ← ctx.renameMembers kind rest
    return m :: rest

/-- What an edit of the whole class leaves besides the pool. -/
structure Edited where
  fields : List Member
  methods : List Member
  attributes : List Attribute

/-- Edits the pool for a whole class. -/
def editClass (ctx : Context) (c : ClassFile) : ConstantPool.Edit Edited := do
  ctx.renameConstants ctx.oldPool.toList
  let fields ← ctx.renameMembers .field c.fields
  let methods ← ctx.renameMembers .method c.methods
  let attributes ← editPayloads ctx strippedFromClass ctx.classPayload c.attributes
  return ⟨fields, methods, attributes⟩

end Context

/-- Renames a parsed class, given its name. -/
def renameParsed (resolver : Resolver) (c : ClassFile) (owner : String) :
    Except Fault ClassFile :=
  match Context.editClass ⟨resolver, c.pool, owner⟩ c c.pool with
  | .ok r pool =>
    .ok { c with pool, fields := r.fields, methods := r.methods, attributes := r.attributes }
  | .error e _ => .error e

/-- Renames a class file and leaves out what only debuggers read. -/
def rename (resolver : Resolver) (bytes : Bytes) : Except Fault RenamedClass := do
  let c ← ClassFile.parse bytes
  let oldName ← c.name
  let renamed ← renameParsed resolver c oldName
  let name ← renamed.name
  return ⟨oldName, name, renamed.encode⟩

end Jarwright.Renaming
