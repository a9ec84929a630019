import Jarwright.Proofs.Renaming.Class

/-!
# What the slots of a pool mean

A symbol is what a slot means once every index in it is resolved: the name of a class, a member by
its owner, name and descriptor, the descriptor of a method type, a dynamic call site. A slot that
names nothing of this kind means its own constant.

* `ConstantPool.symbol` resolves a constant, `ConstantPool.symbolAt` the one in a slot;
* `Symbol.rename` is what a renaming does to a symbol, whatever the pool it comes from;
* `PoolRenamed.symbolAt`: resolving a slot of the renamed pool gives the renamed symbol;
* `rename_symbols` says so of the bytes that a renaming answers.
-/

namespace Jarwright.ClassFile

/-- A member by its owner, its name and its descriptor. -/
structure MemberName where
  owner : String
  name : String
  descriptor : String
  deriving DecidableEq, Repr, Inhabited

/-- What a slot means once its indices are resolved. -/
inductive Symbol where
  | classRef (name : String)
  | fieldRef (member : MemberName)
  | methodRef (member : MemberName)
  | interfaceMethodRef (member : MemberName)
  | methodType (descriptor : String)
  | dynamic (bootstrap : UInt16) (name descriptor : String)
  | invokeDynamic (bootstrap : UInt16) (name descriptor : String)
  /-- A constant that is no reference to a class, a member or a call site. -/
  | raw (c : Constant)
  deriving DecidableEq, Repr, Inhabited

namespace ConstantPool

/-- The member that a class and a pair of name and descriptor make. -/
def memberName (pool : ConstantPool) (owner member : UInt16) : Except Fault MemberName := do
  let owner ← pool.className owner
  let pair ← pool.nameAndType member
  return ⟨owner, pair.1, pair.2⟩

/-- What a constant means. -/
def symbol (pool : ConstantPool) : Constant → Except Fault Symbol
  | .classRef name => return .classRef (← pool.utf8 name)
  | .fieldRef owner member => return .fieldRef (← pool.memberName owner member)
  | .methodRef owner member => return .methodRef (← pool.memberName owner member)
  | .interfaceMethodRef owner member => return .interfaceMethodRef (← pool.memberName owner member)
  | .methodType descriptor => return .methodType (← pool.utf8 descriptor)
  | .dynamic bootstrap member => do
    let pair ← pool.nameAndType member
    return .dynamic bootstrap pair.1 pair.2
  | .invokeDynamic bootstrap member => do
    let pair ← pool.nameAndType member
    return .invokeDynamic bootstrap pair.1 pair.2
  | c => .ok (.raw c)

/-- What a slot means. -/
def symbolAt (pool : ConstantPool) (i : Nat) : Except Fault Symbol :=
  match pool.places[i]? with
  | some c => pool.symbol c
  | none => .error (.badIndex (UInt16.ofNat i))

end ConstantPool

end Jarwright.ClassFile

namespace Jarwright.Renaming

open ClassFile ConstantPool

/-- The new form of a member: its new name is asked for with the old owner and descriptor. -/
def renameMemberName (r : Resolver) (kind : MemberKind) (m : MemberName) :
    Except Fault MemberName := do
  let owner ← ClassName.map r.type m.owner
  let descriptor ← r.descriptor m.descriptor
  return ⟨owner, newMemberName r kind m.owner m.name m.descriptor, descriptor⟩

/-- The new form of a symbol. -/
def renameSymbol (r : Resolver) : Symbol → Except Fault Symbol
  | .classRef name => return .classRef (← ClassName.map r.type name)
  | .fieldRef m => return .fieldRef (← renameMemberName r .field m)
  | .methodRef m => return .methodRef (← renameMemberName r .method m)
  | .interfaceMethodRef m => return .interfaceMethodRef (← renameMemberName r .method m)
  | .methodType d => return .methodType (← r.descriptor d)
  | .dynamic b n d => return .dynamic b n (← r.descriptor d)
  | .invokeDynamic b n d => return .invokeDynamic b n (← r.descriptor d)
  | .raw c => .ok (.raw c)

namespace Context

variable {ctx : Context} {final : ConstantPool}

namespace PoolRenamed

/-- A class keeps its slot and gets its new name. -/
theorem className (h : ctx.PoolRenamed final) {i : UInt16} {old : String}
    (hold : ctx.oldPool.className i = .ok old) :
    ∃ new, ClassName.map ctx.resolver.type old = .ok new ∧ final.className i = .ok new := by
  obtain ⟨n, hslot, htext⟩ := className_eq_ok.1 hold
  obtain ⟨c', hslot', hrenamed⟩ := h.slots _ _ hslot
  cases hrenamed with
  | classRef hname =>
    obtain ⟨old', new, hnew, hex⟩ := hname
    obtain rfl : old' = old := Except.ok.inj (hex.before.symm.trans htext)
    exact ⟨new, hnew, className_eq_ok.2 ⟨_, hslot', hex.after⟩⟩
  | other hno => cases hno

/-- A reference to a member gets the new form of the member. -/
theorem memberName (h : ctx.PoolRenamed final) {kind : MemberKind} {owner m m' : UInt16}
    (hm : ctx.MemberRenamedAt final kind owner m m') :
    ∃ old new, ctx.oldPool.memberName owner m = .ok old
      ∧ renameMemberName ctx.resolver kind old = .ok new ∧ final.memberName owner m' = .ok new := by
  obtain ⟨ownerName, howner, name, descriptor, newDescriptor, hdescriptor, hpair, hpair', -⟩ := hm
  obtain ⟨newOwner, hmap, howner'⟩ := h.className howner
  refine ⟨⟨ownerName, name, descriptor⟩,
    ⟨newOwner, ctx.memberName kind ownerName name descriptor, newDescriptor⟩, ?_, ?_, ?_⟩
  · simp only [ConstantPool.memberName, except_bind_eq_ok, except_pure_eq_ok]
    exact ⟨_, howner, _, hpair, rfl⟩
  · simp only [renameMemberName, except_bind_eq_ok, except_pure_eq_ok]
    exact ⟨_, hmap, _, hdescriptor, rfl⟩
  · simp only [ConstantPool.memberName, except_bind_eq_ok, except_pure_eq_ok]
    exact ⟨_, howner', _, hpair', rfl⟩

/-- Resolving a renamed constant gives the renamed symbol. -/
theorem symbol (h : ctx.PoolRenamed final) {c c' : Constant} (hc : ctx.SlotRenamed final c c') :
    ∃ s s', ctx.oldPool.symbol c = .ok s ∧ renameSymbol ctx.resolver s = .ok s'
      ∧ final.symbol c' = .ok s' := by
  cases hc with
  | classRef hname =>
    obtain ⟨old, new, hnew, hex⟩ := hname
    refine ⟨.classRef old, .classRef new, ?_, ?_, ?_⟩
    · simpa [ConstantPool.symbol] using hex.before
    · simpa [renameSymbol] using hnew
    · simpa [ConstantPool.symbol] using hex.after
  | methodType hname =>
    obtain ⟨old, new, hnew, hex⟩ := hname
    refine ⟨.methodType old, .methodType new, ?_, ?_, ?_⟩
    · simpa [ConstantPool.symbol] using hex.before
    · simpa [renameSymbol] using hnew
    · simpa [ConstantPool.symbol] using hex.after
  | fieldRef hm =>
    obtain ⟨old, new, hold, hmap, hnew⟩ := h.memberName hm
    exact ⟨.fieldRef old, .fieldRef new, by simpa [ConstantPool.symbol] using hold,
      by simpa [renameSymbol] using hmap, by simpa [ConstantPool.symbol] using hnew⟩
  | methodRef hm =>
    obtain ⟨old, new, hold, hmap, hnew⟩ := h.memberName hm
    exact ⟨.methodRef old, .methodRef new, by simpa [ConstantPool.symbol] using hold,
      by simpa [renameSymbol] using hmap, by simpa [ConstantPool.symbol] using hnew⟩
  | interfaceMethodRef hm =>
    obtain ⟨old, new, hold, hmap, hnew⟩ := h.memberName hm
    exact ⟨.interfaceMethodRef old, .interfaceMethodRef new,
      by simpa [ConstantPool.symbol] using hold, by simpa [renameSymbol] using hmap,
      by simpa [ConstantPool.symbol] using hnew⟩
  | @dynamic b _ _ hp =>
    obtain ⟨name, descriptor, newDescriptor, hdescriptor, hpair, hpair', -⟩ := hp
    exact ⟨.dynamic b name descriptor, .dynamic b name newDescriptor,
      by simp [ConstantPool.symbol, hpair], by simpa [renameSymbol] using hdescriptor,
      by simp [ConstantPool.symbol, hpair']⟩
  | @invokeDynamic b _ _ hp =>
    obtain ⟨name, descriptor, newDescriptor, hdescriptor, hpair, hpair', -⟩ := hp
    exact ⟨.invokeDynamic b name descriptor, .invokeDynamic b name newDescriptor,
      by simp [ConstantPool.symbol, hpair], by simpa [renameSymbol] using hdescriptor,
      by simp [ConstantPool.symbol, hpair']⟩
  | other hno =>
    have hraw (pool : ConstantPool) : pool.symbol c = .ok (.raw c) := by
      cases c <;> first | rfl | cases hno
    exact ⟨.raw c, .raw c, hraw _, rfl, hraw _⟩

/-- Every slot of the old pool means the renamed symbol afterwards. -/
theorem symbolAt (h : ctx.PoolRenamed final) {i : Nat} (hi : i < ctx.oldPool.count) :
    ∃ s s', ctx.oldPool.symbolAt i = .ok s ∧ renameSymbol ctx.resolver s = .ok s'
      ∧ final.symbolAt i = .ok s' := by
  have hslot : ctx.oldPool.places[i]? = some ctx.oldPool.places[i] := List.getElem?_eq_getElem hi
  obtain ⟨c', hslot', hrenamed⟩ := h.slots _ _ hslot
  obtain ⟨s, s', hs, hmap, hs'⟩ := h.symbol hrenamed
  refine ⟨s, s', ?_, hmap, ?_⟩
  · rw [ConstantPool.symbolAt, hslot]
    exact hs
  · rw [ConstantPool.symbolAt, hslot']
    exact hs'

/-- A slot that is not redirected holds the same constant afterwards. -/
theorem getElem?_of_not_isRedirected (h : ctx.PoolRenamed final) {i : Nat} {c : Constant}
    (hslot : ctx.oldPool.places[i]? = some c) (hno : isRedirected c = false) :
    final.places[i]? = some c := by
  obtain ⟨c', hslot', hrenamed⟩ := h.slots i c hslot
  cases hrenamed with
  | other _ => exact hslot'
  | _ => cases hno

end PoolRenamed

end Context

/-- What a renaming does to a pool. Each old slot means the new form of what it meant, a slot that
is not redirected holds its constant, and what stands behind the old slots is texts and pairs of
name and descriptor. -/
structure SymbolsRenamed (r : Resolver) (old new : ConstantPool) : Prop where
  renamed : ∀ i < old.count, ∃ s s', old.symbolAt i = .ok s ∧ renameSymbol r s = .ok s'
    ∧ new.symbolAt i = .ok s'
  identical : ∀ (i : Nat) (c : Constant), old.places[i]? = some c → isRedirected c = false →
    new.places[i]? = some c
  count_le : old.count ≤ new.count
  added : ∀ c ∈ new.places.drop old.count, c.isName = true

theorem Context.PoolRenamed.symbolsRenamed {ctx : Context} {final : ConstantPool}
    (h : ctx.PoolRenamed final) : SymbolsRenamed ctx.resolver ctx.oldPool final := by
  obtain ⟨front, names, hplaces, hlen, hnames⟩ := h.added
  refine ⟨fun i hi => h.symbolAt hi, fun i c => h.getElem?_of_not_isRedirected, ?_, ?_⟩
  · rw [← length_places final, hplaces, List.length_append, hlen]
    exact Nat.le_add_right ..
  · rw [hplaces, ← hlen, List.drop_left]
    exact hnames

/-- **A renaming renames what every slot means.**  The bytes it answers are read again, and every
slot of the old pool means the new form of what it meant: class names, members with the new name
that is found for their old owner, name and descriptor, the descriptors of method types and of call
sites. -/
theorem rename_symbols {r : Resolver} {bytes : Bytes} {out : RenamedClass}
    (h : rename r bytes = .ok out) :
    ∃ c c', ClassFile.parse bytes = .ok c ∧ ClassFile.parse out.bytes = .ok c'
      ∧ SymbolsRenamed r c.pool c'.pool := by
  obtain ⟨c, c', hparse, -, hparse', -, hrenamed⟩ := rename_spec h
  exact ⟨c, c', hparse, hparse', hrenamed.pool.symbolsRenamed⟩

theorem rename_symbols_sampleClass :
    rename sampleResolver sampleClass = .ok renamedSample
      ∧ ∃ c c', ClassFile.parse sampleClass = .ok c ∧ ClassFile.parse renamedSample.bytes = .ok c'
        ∧ SymbolsRenamed sampleResolver c.pool c'.pool :=
  ⟨rename_sampleClass, rename_symbols rename_sampleClass⟩

end Jarwright.Renaming
