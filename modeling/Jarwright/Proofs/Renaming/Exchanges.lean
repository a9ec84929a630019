import Jarwright.Proofs.Renaming.Steps

/-!
# Indices before and after a renaming

A renaming puts one index in the place of another. The old index is resolved in the pool as it was
before, the new one in the pool that is written in the end.

* `TextRenamed ctx final f i i'`: the text at `i` becomes its image under `f` at `i'`;
* `PairRenamed ctx final f i i'`: the same for a pair of name and descriptor.

Both say that an index stays where what it stands for does not change.
-/

namespace Jarwright.Renaming

open ClassFile ConstantPool

namespace Context

/-- The index of one text takes the place of the index of another, and is the same index for the
same text. -/
structure Exchanged (ctx : Context) (final : ConstantPool) (old new : String) (i i' : UInt16) :
    Prop where
  before : ctx.oldPool.utf8 i = .ok old
  after : final.utf8 i' = .ok new
  same : new = old → i' = i

/-- The text at an index is replaced by its image. -/
def TextRenamed (ctx : Context) (final : ConstantPool) (f : String → Except Fault String)
    (i i' : UInt16) : Prop :=
  ∃ old new, f old = .ok new ∧ ctx.Exchanged final old new i i'

/-- The pair of name and descriptor at an index is replaced by the pair of a new name, which may
depend on both, and the new form of the descriptor. -/
def PairRenamed (ctx : Context) (final : ConstantPool) (newName : String → String → String)
    (i i' : UInt16) : Prop :=
  ∃ name descriptor newDescriptor, ctx.resolver.descriptor descriptor = .ok newDescriptor
    ∧ ctx.oldPool.nameAndType i = .ok (name, descriptor)
    ∧ final.nameAndType i' = .ok (newName name descriptor, newDescriptor)
    ∧ (newName name descriptor = name ∧ newDescriptor = descriptor → i' = i)

/-- The pair of a member of the class at an index is replaced by the one of its new name. -/
def MemberRenamedAt (ctx : Context) (final : ConstantPool) (kind : MemberKind)
    (owner i i' : UInt16) : Prop :=
  ∃ ownerName, ctx.oldPool.className owner = .ok ownerName
    ∧ ctx.PairRenamed final (ctx.memberName kind ownerName) i i'

variable {ctx : Context} {final : ConstantPool}

/-! ## What the edits of names yield -/

theorem Exchanged.of_eq {old old' new : String} {i i' : UInt16}
    (h : ctx.Exchanged final old new i i') (hold : ctx.oldPool.utf8 i = .ok old') :
    ctx.Exchanged final old' new i i' := by
  obtain rfl : old = old' := Except.ok.inj (h.before.symm.trans hold)
  exact h

variable (hkeep : ctx.oldPool.KeepsNames final)

include hkeep

theorem yields_exchangeText (i : UInt16) (new : String) :
    Yields final (ctx.exchangeText i new) (fun i' => ∃ old, ctx.Exchanged final old new i i') := by
  have hnew (old : String) : Yields final (if old = new then pure i else internUtf8 new)
      (fun i' => ctx.oldPool.utf8 i = .ok old → ctx.Exchanged final old new i i') := by
    by_cases heq : old = new
    · rw [if_pos heq]
      refine (Yields.pure i).mono ?_
      rintro i' rfl hold
      exact ⟨hold, heq ▸ hkeep.utf8 hold, fun _ => rfl⟩
    · rw [if_neg heq]
      refine (Yields.internUtf8 new).mono fun i' hi' hold => ?_
      exact ⟨hold, hi', fun h => absurd h.symm heq⟩
  refine ((Yields.lookUp _).bind hnew).mono ?_
  rintro i' ⟨old, hold, h⟩
  exact ⟨old, h hold⟩

theorem yields_exchangeDescriptor (i : UInt16) :
    Yields final (ctx.exchangeDescriptor i) (ctx.TextRenamed final ctx.resolver.descriptor i) := by
  refine ((Yields.lookUp _).bind fun old => (Yields.lookUp _).bind fun new =>
    yields_exchangeText hkeep i new).mono ?_
  rintro i' ⟨old, hold, new, hnew, _, h⟩
  exact ⟨old, new, hnew, h.of_eq hold⟩

/-- An edit that answers a pair only if it is a new one. -/
theorem yields_pair (name descriptor newName newDescriptor : String) (i : UInt16) :
    Yields final
      (if newName = name ∧ newDescriptor = descriptor then pure none
        else return some (← internNameAndType newName newDescriptor))
      (fun o => ctx.oldPool.nameAndType i = .ok (name, descriptor) →
        final.nameAndType (o.getD i) = .ok (newName, newDescriptor)
          ∧ (newName = name ∧ newDescriptor = descriptor → o.getD i = i)) := by
  by_cases heq : newName = name ∧ newDescriptor = descriptor
  · rw [if_pos heq]
    refine (Yields.pure none).mono ?_
    rintro _ rfl hold
    obtain ⟨rfl, rfl⟩ := heq
    exact ⟨hkeep.nameAndType hold, fun _ => rfl⟩
  · rw [if_neg heq]
    refine ((Yields.internNameAndType _ _).bind fun i' => Yields.pure (some i')).mono ?_
    rintro _ ⟨i', hi', rfl⟩ -
    exact ⟨hi', fun h => absurd h heq⟩

theorem yields_memberRef (kind : MemberKind) (owner i : UInt16) :
    Yields final (ctx.memberRef kind owner i)
      (fun o => ctx.MemberRenamedAt final kind owner i (o.getD i)) := by
  refine ((Yields.lookUp _).bind fun ownerName =>
    (Yields.lookUp (ctx.oldPool.nameAndType i)).bind fun pair =>
      (Yields.lookUp _).bind fun newDescriptor =>
        yields_pair hkeep pair.1 pair.2 (ctx.memberName kind ownerName pair.1 pair.2)
          newDescriptor i).mono ?_
  rintro o ⟨ownerName, howner, ⟨name, descriptor⟩, hpair, newDescriptor, hdescriptor, h⟩
  exact ⟨ownerName, howner, name, descriptor, newDescriptor, hdescriptor, hpair, h hpair⟩

theorem yields_dynamicRef (i : UInt16) :
    Yields final (ctx.dynamicRef i)
      (fun o => ctx.PairRenamed final (fun name _ => name) i (o.getD i)) := by
  have hnew (name descriptor newDescriptor : String) :=
    yields_pair hkeep name descriptor name newDescriptor i
  simp only [true_and] at hnew
  refine ((Yields.lookUp (ctx.oldPool.nameAndType i)).bind fun pair =>
    (Yields.lookUp _).bind fun newDescriptor => hnew pair.1 pair.2 newDescriptor).mono ?_
  rintro o ⟨⟨name, descriptor⟩, hpair, newDescriptor, hdescriptor, h⟩
  refine ⟨name, descriptor, newDescriptor, hdescriptor, hpair, (h hpair).1, ?_⟩
  exact fun heq => (h hpair).2 heq.2

end Context

end Jarwright.Renaming
