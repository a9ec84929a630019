import Mathlib.Data.List.Basic
import Jarwright.Proofs.ClassFile.Codec

/-!
# The header of a class file

What a class says about its place among others can be had from the whole class file or from its
first bytes alone. The two ways are different readers: the short one stops before the members, and
it resolves each name where the index stands, so that a file with two faults may be refused for
different ones.

* `eval_bind_of_eq_ok`, `eval_lift_bind` and `eval_times_resolve` run a reader and keep its fault if
  it fails; with them `Header.parse_of_parse` says that on a class file the two ways give the same
  header or the same fault;
* `Fault.Unreadable` lists the faults of bytes that cannot be taken apart. The front part of a file
  has no others (`onlyUnreadable_readFront`), and a name that does not resolve is never one of them
  (`readable_of_className`);
* two readers that begin with the same step fail alike if they do behind it
  (`eval_bind_eq_error_mono`), so that the short reader meets such a fault only where the whole one
  does.

`Header.parse_agrees` is the result on all byte strings.
-/

namespace Jarwright.ClassFile

open Reader

/-! ## Running readers -/

section Steps

variable {α β γ : Type} {bs : Bytes}

/-- A step that is known to succeed. -/
theorem eval_bind_of_eq_ok {step : Reader α} {x : α} {mid : Bytes} (hstep : step bs = .ok x mid)
    {next : α → Reader β} : eval (step >>= next) bs = eval (next x) mid := by
  show eval (EStateM.bind step next) bs = _
  unfold eval EStateM.bind
  rw [hstep]

theorem eval_u2_bind_putU2 {n : UInt16} {next : UInt16 → Reader β} :
    eval (u2 >>= next) (putU2 n ++ bs) = eval (next n) bs :=
  eval_bind_of_eq_ok (u2_eq_ok.2 rfl)

theorem eval_lift_bind {r : Except Fault α} {next : α → Reader β} :
    eval (lift r >>= next) bs = r >>= fun x => eval (next x) bs := by
  cases r <;> rfl

/-- Each index is resolved as it is read, or all of them behind the last one. -/
theorem eval_times_resolve {f : UInt16 → Except Fault α} {indices : List UInt16}
    {next : List α → Reader β} :
    eval (times indices.length (do let i ← u2; lift (f i)) >>= next) (indices.flatMap putU2 ++ bs)
      = indices.mapM f >>= fun xs => eval (next xs) bs := by
  induction indices generalizing next with
  | nil => rfl
  | cons i indices ih =>
    simp only [List.length_cons, times_succ, List.flatMap_cons, List.append_assoc, bind_assoc,
      pure_bind, eval_u2_bind_putU2, eval_lift_bind, List.mapM_cons, ih]

theorem eval_bind_eq_error {step : Reader α} {next : α → Reader β} {fault : Fault} :
    eval (step >>= next) bs = .error fault
      ↔ (∃ mid, step bs = .error fault mid)
        ∨ ∃ x mid, step bs = .ok x mid ∧ eval (next x) mid = .error fault := by
  show eval (EStateM.bind step next) bs = _ ↔ _
  unfold eval EStateM.bind
  cases step bs <;> simp

/-- Readers that begin with the same step fail alike if they do so behind it. -/
theorem eval_bind_eq_error_mono {step : Reader α} {next : α → Reader β} {next' : α → Reader γ}
    {fault : Fault}
    (h : ∀ x mid, eval (next x) mid = .error fault → eval (next' x) mid = .error fault)
    (hrun : eval (step >>= next) bs = .error fault) : eval (step >>= next') bs = .error fault := by
  rcases eval_bind_eq_error.1 hrun with hstep | ⟨x, mid, hstep, hnext⟩
  · exact eval_bind_eq_error.2 (.inl hstep)
  · exact eval_bind_eq_error.2 (.inr ⟨x, mid, hstep, h x mid hnext⟩)

end Steps

/-! ## Headers of class files -/

theorem superNameOf_eq_ok {pool : ConstantPool} {i : UInt16} {superName : Option String} :
    superNameOf pool i = .ok superName
      ↔ i = 0 ∧ superName = none
        ∨ i ≠ 0 ∧ ∃ name, pool.className i = .ok name ∧ superName = some name := by
  unfold superNameOf
  split
  · rename_i hzero
    simp [hzero, eq_comm]
  · rename_i hzero
    cases pool.className i <;> simp [hzero, Except.map, eq_comm]

theorem header_eq_ok {c : ClassFile} {h : Header} :
    c.header = .ok h ↔ h.flags = c.flags ∧ c.pool.className c.thisClass = .ok h.name
      ∧ superNameOf c.pool c.superClass = .ok h.superName
      ∧ c.interfaces.mapM c.pool.className = .ok h.interfaces := by
  simp only [ClassFile.header, ClassFile.name, ClassFile.superName, interfaceNames,
    except_bind_eq_ok, except_pure_eq_ok]
  constructor
  · rintro ⟨name, hname, superName, hsuper, interfaces, hinterfaces, rfl⟩
    exact ⟨rfl, hname, hsuper, hinterfaces⟩
  · rintro ⟨hflags, hname, hsuper, hinterfaces⟩
    exact ⟨_, hname, _, hsuper, _, hinterfaces, by rw [← hflags]⟩

/-- On a class file the short reader gives its header, or the fault for which it has none. -/
theorem Header.parse_of_parse {bs : Bytes} {c : ClassFile} (hc : ClassFile.parse bs = .ok c) :
    Header.parse bs = c.header := by
  obtain ⟨mid, hbs, hpool, ⟨⟨hlen, -⟩, -⟩, -⟩ := parse_eq_ok.1 hc
  have hfront := readFront_eq_ok.2 ⟨mid, hbs, hpool⟩
  have hcount : (UInt16.ofNat c.interfaces.length).toNat = c.interfaces.length :=
    UInt16.toNat_ofNat_of_lt' hlen
  have hlist : putList putU2 c.interfaces
      = putU2 (UInt16.ofNat c.interfaces.length) ++ c.interfaces.flatMap putU2 := by
    rw [putList, putU2, hcount]
  simp only [encodeBack, hlist, List.append_assoc] at hfront
  rw [Header.parse, Header.read, eval_bind_of_eq_ok hfront]
  simp only [eval_u2_bind_putU2, eval_lift_bind, hcount, eval_times_resolve]
  rfl

/-- The header is that of the whole class file. -/
theorem Header.parse_iff {bs : Bytes} {c : ClassFile} {h : Header}
    (hc : ClassFile.parse bs = .ok c) : Header.parse bs = .ok h ↔ c.header = .ok h := by
  rw [Header.parse_of_parse hc]

/-! ## Bytes that cannot be taken apart -/

/-- The faults of bytes that cannot be taken apart: they end too soon, do not start as a class file,
or hold a pool of which the entries cannot be told. -/
def Fault.Unreadable : Fault → Prop
  | .truncated | .badMagic _ | .unknownTag _ | .slotCount _ _ => True
  | _ => False

/-- The reader fails only for such a fault. -/
def OnlyUnreadable {α : Type} (reader : Reader α) : Prop :=
  ∀ bs fault mid, reader bs = .error fault mid → fault.Unreadable

namespace OnlyUnreadable

variable {α β : Type}

theorem pure (x : α) : OnlyUnreadable (pure x : Reader α) := by
  rintro bs fault mid ⟨⟩

theorem throw {fault : Fault} (h : fault.Unreadable) :
    OnlyUnreadable (throw fault : Reader α) := by
  rintro bs _ mid ⟨⟩
  exact h

theorem bind {step : Reader α} {next : α → Reader β} (hstep : OnlyUnreadable step)
    (hnext : ∀ x, OnlyUnreadable (next x)) : OnlyUnreadable (step >>= next) := by
  intro bs fault mid hrun
  change EStateM.bind step next bs = .error fault mid at hrun
  unfold EStateM.bind at hrun
  split at hrun
  · exact hnext _ _ _ _ hrun
  · cases hrun
    exact hstep _ _ _ ‹_›

theorem take (n : Nat) : OnlyUnreadable (take n) := by
  intro bs fault mid hrun
  unfold Reader.take at hrun
  split at hrun <;> cases hrun
  trivial

theorem u1 : OnlyUnreadable u1 := by
  intro bs fault mid hrun
  unfold Reader.u1 at hrun
  split at hrun <;> cases hrun
  trivial

theorem u2 : OnlyUnreadable u2 := (take 2).bind fun _ => pure _

theorem u4 : OnlyUnreadable u4 := (take 4).bind fun _ => pure _

theorem u8 : OnlyUnreadable u8 := u4.bind fun _ => u4.bind fun _ => pure _

end OnlyUnreadable

theorem onlyUnreadable_readContent (tag : Nat) : OnlyUnreadable (Constant.readContent tag) := by
  unfold Constant.readContent
  split
  case h_1 => exact .bind .u2 fun _ => .bind (.take _) fun _ => .pure _
  case h_18 => exact .throw trivial
  all_goals first
    | exact .bind .u2 fun _ => .pure _
    | exact .bind .u4 fun _ => .pure _
    | exact .bind .u8 fun _ => .pure _
    | exact .bind .u2 fun _ => .bind .u2 fun _ => .pure _
    | exact .bind .u1 fun _ => .bind .u2 fun _ => .pure _

theorem onlyUnreadable_readEntries (n : Nat) (pool : ConstantPool) :
    OnlyUnreadable (ConstantPool.readEntries n pool) := by
  induction n using Nat.strongRecOn generalizing pool with
  | ind n ih =>
    rw [ConstantPool.readEntries]
    split
    · exact .pure _
    · refine .bind (.bind .u1 fun _ => onlyUnreadable_readContent _) fun c => ?_
      have hge := c.one_le_slots
      exact ih (n - c.slots) (by omega) _

/-- Up to the end of the pool nothing else can be wrong. -/
theorem onlyUnreadable_readFront : OnlyUnreadable readFront := by
  have hpool : OnlyUnreadable ConstantPool.read := by
    refine .bind .u2 fun declared => .bind (onlyUnreadable_readEntries _ _) fun pool => ?_
    split
    · exact .pure _
    · exact .throw trivial
  have hrest : OnlyUnreadable (do
      let minor ← u2
      let major ← u2
      let pool ← ConstantPool.read
      return (minor, major, pool)) :=
    .bind .u2 fun _ => .bind .u2 fun _ => .bind hpool fun _ => .pure _
  unfold readFront
  refine .bind .u4 fun m => ?_
  split
  · exact .bind (.throw trivial) fun _ => hrest
  · exact hrest

section Resolving

variable {pool : ConstantPool} {i : UInt16} {fault : Fault}

theorem readable_of_get (h : pool.get i = .error fault) : ¬ fault.Unreadable := by
  unfold ConstantPool.get at h
  split at h <;> cases h <;> exact id

theorem readable_of_utf8 (h : pool.utf8 i = .error fault) : ¬ fault.Unreadable := by
  unfold ConstantPool.utf8 at h
  split at h
  · rename_i hget
    cases h
    exact readable_of_get hget
  · split at h
    · cases h
    · cases h
      exact id
  · cases h
    exact id

/-- A name that does not resolve is no fault of the bytes. -/
theorem readable_of_className (h : pool.className i = .error fault) : ¬ fault.Unreadable := by
  unfold ConstantPool.className at h
  split at h
  · rename_i hget
    cases h
    exact readable_of_get hget
  · exact readable_of_utf8 h
  · cases h
    exact id

theorem readable_of_superNameOf (h : superNameOf pool i = .error fault) : ¬ fault.Unreadable := by
  unfold superNameOf at h
  split at h
  · cases h
  · cases hname : pool.className i with
    | ok name =>
      rw [hname] at h
      cases h
    | error cause =>
      rw [hname] at h
      cases h
      exact readable_of_className hname

end Resolving

section Failing

variable {α β γ : Type} {bs : Bytes} {fault : Fault}

/-- Resolving a name between two reads adds no fault of the bytes. -/
theorem exists_of_lift_bind_eq_error {r : Except Fault α} {next : α → Reader β}
    (hfault : fault.Unreadable) (hr : ∀ cause, r = .error cause → ¬ cause.Unreadable)
    (hrun : eval (lift r >>= next) bs = .error fault) : ∃ x, eval (next x) bs = .error fault := by
  rw [eval_lift_bind] at hrun
  cases r with
  | ok x => exact ⟨x, hrun⟩
  | error cause =>
    cases hrun
    exact absurd hfault (hr _ rfl)

/-- Where indices are read and resolved, a fault of the bytes is met where they are only read. -/
theorem eval_times_eq_error {f : UInt16 → Except Fault α} {next : List α → Reader β}
    {next' : List UInt16 → Reader γ} {n : Nat} (hfault : fault.Unreadable)
    (hf : ∀ i cause, f i = .error cause → ¬ cause.Unreadable)
    (hnext : ∀ xs mid, eval (next xs) mid ≠ .error fault)
    (hrun : eval (times n (do let i ← u2; lift (f i)) >>= next) bs = .error fault) :
    eval (times n u2 >>= next') bs = .error fault := by
  induction n generalizing bs next next' with
  | zero => exact absurd hrun (hnext [] bs)
  | succ n ih =>
    simp only [times_succ, bind_assoc, pure_bind] at hrun ⊢
    refine eval_bind_eq_error_mono (fun i mid h => ?_) hrun
    obtain ⟨x, hmore⟩ := exists_of_lift_bind_eq_error hfault (hf i) h
    exact ih (fun xs => hnext (x :: xs)) hmore

end Failing

/-- A fault of the bytes that the short reader meets, the whole one meets as well. -/
theorem Header.parse_eq_error {bs : Bytes} {fault : Fault} (hfault : fault.Unreadable)
    (hrun : Header.parse bs = .error fault) : ClassFile.parse bs = .error fault := by
  unfold Header.parse Header.read at hrun
  unfold ClassFile.parse ClassFile.read
  refine eval_bind_eq_error_mono (fun front _ h => ?_) hrun
  refine eval_bind_eq_error_mono (fun flags _ h => ?_) h
  refine eval_bind_eq_error_mono (fun thisClass _ h => ?_) h
  obtain ⟨name, h⟩ :=
    exists_of_lift_bind_eq_error hfault (fun _ => readable_of_className) h
  refine eval_bind_eq_error_mono (fun superClass _ h => ?_) h
  obtain ⟨superName, h⟩ :=
    exists_of_lift_bind_eq_error hfault (fun _ => readable_of_superNameOf) h
  refine eval_bind_eq_error_mono (fun count _ h => ?_) h
  refine eval_times_eq_error hfault (fun _ _ => readable_of_className) (fun xs mid => ?_) h
  exact nofun

/-- What is wrong with the front part of a file, the short reader says. -/
theorem Header.parse_of_readFront {bs mid : Bytes} {fault : Fault}
    (hfront : readFront bs = .error fault mid) : Header.parse bs = .error fault :=
  eval_bind_eq_error.2 (.inl ⟨mid, hfront⟩)

/-- **The short reader agrees with the whole one.**  On a class file it gives the header of the
class file or the fault for which there is none, and where it fails because the bytes cannot be
taken apart, the whole reader fails for the same fault. This is how both fail whatever is wrong with
the magic number, the version or the pool. -/
theorem Header.parse_agrees (bs : Bytes) :
    (∀ c, ClassFile.parse bs = .ok c → Header.parse bs = c.header)
      ∧ (∀ fault : Fault, fault.Unreadable → Header.parse bs = .error fault →
        ClassFile.parse bs = .error fault)
      ∧ ∀ fault mid, readFront bs = .error fault mid →
        fault.Unreadable ∧ Header.parse bs = .error fault :=
  ⟨fun _ => Header.parse_of_parse, fun _ => Header.parse_eq_error,
    fun _ _ hfront => ⟨onlyUnreadable_readFront _ _ _ hfront, Header.parse_of_readFront hfront⟩⟩

/-- The class `a` with a superclass that is not in its pool. -/
def danglingClass : Bytes :=
  [0xca, 0xfe, 0xba, 0xbe, 0, 0, 0, 52, 0, 3, 1, 0, 1, 97, 7, 0, 1, 0, 0x21, 0, 2, 0, 9, 0, 0, 0, 0,
    0, 0, 0, 0]

/-- The class is read, but has no header; without its last bytes neither reader gets to its
superclass, and with a tag that is none neither gets behind the pool. -/
theorem Header.parse_agrees_danglingClass :
    (∃ c, ClassFile.parse danglingClass = .ok c ∧ Header.parse danglingClass = c.header
        ∧ c.header = .error (.badIndex 9))
      ∧ Fault.truncated.Unreadable ∧ Header.parse (danglingClass.take 22) = .error .truncated
      ∧ ClassFile.parse (danglingClass.take 22) = .error .truncated
      ∧ (∃ mid, readFront (danglingClass.set 14 2) = .error (.unknownTag 2) mid)
      ∧ Header.parse (danglingClass.set 14 2) = .error (.unknownTag 2) := by
  have hdangling : Header.parse danglingClass = .error (.badIndex 9) := by decide +kernel
  have hcut : Header.parse (danglingClass.take 22) = .error .truncated := by decide +kernel
  have hread : (ClassFile.parse danglingClass).toOption.isSome = true := by decide +kernel
  obtain ⟨mid, htag⟩ : ∃ mid, readFront (danglingClass.set 14 2) = .error (.unknownTag 2) mid := by
    have hfault : (eval readFront (danglingClass.set 14 2)).map (fun _ => ())
        = .error (.unknownTag 2) := by decide +kernel
    unfold eval at hfault
    split at hfault
    · cases hfault
    · rename_i hfront
      cases hfault
      exact ⟨_, hfront⟩
  refine ⟨?_, trivial, hcut, (Header.parse_agrees _).2.1 _ trivial hcut, ⟨mid, htag⟩,
    ((Header.parse_agrees _).2.2 _ _ htag).2⟩
  cases hparse : ClassFile.parse danglingClass with
  | error fault =>
    rw [hparse] at hread
    cases hread
  | ok c =>
    have hheader := (Header.parse_agrees _).1 c hparse
    exact ⟨c, rfl, hheader, hheader.symm.trans hdangling⟩

end Jarwright.ClassFile
