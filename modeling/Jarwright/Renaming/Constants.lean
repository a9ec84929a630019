import Jarwright.ClassFile.Signature
import Jarwright.Renaming.ElementValue
import Jarwright.Resolver

/-!
# Renaming in a constant pool

Names are looked up in the pool as it was before, and questions are always asked with the old
owner. A text constant is never changed: a new name is appended, and the structure that used the
old one is pointed to it. A pair of name and descriptor may be shared by references with different
owners, so it is not changed in place either.
-/

namespace Jarwright.Renaming

open ClassFile

/-- What a class is renamed with: the resolver, the pool before, and the old name of the class. -/
structure Context where
  resolver : Resolver
  oldPool : ConstantPool
  owner : String

/-- The two kinds of members. -/
inductive MemberKind where
  | field | method
  deriving DecidableEq, Repr, Inhabited

/-- The new name of a member of either kind. -/
def newMemberName (resolver : Resolver) : MemberKind → (owner name descriptor : String) → String
  | .field => resolver.field
  | .method => resolver.method

/-- A look-up as an edit that changes nothing. -/
def lookUp {α : Type} (r : Except Fault α) : ConstantPool.Edit α := fun pool =>
  match r with
  | .ok x => .ok x pool
  | .error e => .error e pool

namespace Context

/-- The new name of a member. -/
def memberName (ctx : Context) (kind : MemberKind) (owner name descriptor : String) : String :=
  newMemberName ctx.resolver kind owner name descriptor

/-- The index of a text that takes the place of the one at `index`: the same index if the text is
the same. -/
def exchangeText (ctx : Context) (index : UInt16) (new : String) :
    ConstantPool.Edit UInt16 := do
  let old ← lookUp (ctx.oldPool.utf8 index)
  if old = new then return index else ConstantPool.internUtf8 new

/-- The index of the new form of the descriptor at `index`. -/
def exchangeDescriptor (ctx : Context) (index : UInt16) : ConstantPool.Edit UInt16 := do
  let old ← lookUp (ctx.oldPool.utf8 index)
  let new ← lookUp (ctx.resolver.descriptor old)
  ctx.exchangeText index new

/-- The index of a pair with the new name and descriptor, if one of them is new. -/
def memberRef (ctx : Context) (kind : MemberKind) (owner member : UInt16) :
    ConstantPool.Edit (Option UInt16) := do
  let owner ← lookUp (ctx.oldPool.className owner)
  let (name, descriptor) ← lookUp (ctx.oldPool.nameAndType member)
  let newName := ctx.memberName kind owner name descriptor
  let newDescriptor ← lookUp (ctx.resolver.descriptor descriptor)
  if newName = name ∧ newDescriptor = descriptor then return none
  else return some (← ConstantPool.internNameAndType newName newDescriptor)

/-- The index of a pair with the old name and the new descriptor, if that is new. -/
def dynamicRef (ctx : Context) (member : UInt16) : ConstantPool.Edit (Option UInt16) := do
  let (name, descriptor) ← lookUp (ctx.oldPool.nameAndType member)
  let newDescriptor ← lookUp (ctx.resolver.descriptor descriptor)
  if newDescriptor = descriptor then return none
  else return some (← ConstantPool.internNameAndType name newDescriptor)

/-- Redirects an entry, if there is something to redirect it to. -/
def redirect (index : UInt16) (entry : UInt16 → Constant) : Option UInt16 → ConstantPool.Edit Unit
  | none => return ()
  | some target => ConstantPool.set index (entry target)

/-- Renames what one entry refers to. -/
def renameConstant (ctx : Context) (index : UInt16) : Constant → ConstantPool.Edit Unit
  | .classRef name => do
    let old ← lookUp (ctx.oldPool.utf8 name)
    let new ← lookUp (ClassName.map ctx.resolver.type old)
    if new = old then return ()
    else ConstantPool.set index (.classRef (← ConstantPool.internUtf8 new))
  | .fieldRef owner member => do
    redirect index (.fieldRef owner) (← ctx.memberRef .field owner member)
  | .methodRef owner member => do
    redirect index (.methodRef owner) (← ctx.memberRef .method owner member)
  | .interfaceMethodRef owner member => do
    redirect index (.interfaceMethodRef owner) (← ctx.memberRef .method owner member)
  | .methodType descriptor => do
    let old ← lookUp (ctx.oldPool.utf8 descriptor)
    let new ← lookUp (ctx.resolver.descriptor old)
    if new = old then return ()
    else ConstantPool.set index (.methodType (← ConstantPool.internUtf8 new))
  | .invokeDynamic bootstrap member => do
    redirect index (.invokeDynamic bootstrap) (← ctx.dynamicRef member)
  | .dynamic bootstrap member => do
    redirect index (.dynamic bootstrap) (← ctx.dynamicRef member)
  | _ => return ()

/-- Renames what the entries of the old pool refer to, in order. -/
def renameConstants (ctx : Context) : List (UInt16 × Constant) → ConstantPool.Edit Unit
  | [] => return ()
  | (index, c) :: rest => do
    ctx.renameConstant index c
    ctx.renameConstants rest

end Context

end Jarwright.Renaming
