import Jarwright.Proofs.ClassFile.Layout
import Jarwright.Proofs.ClassFile.Request

/-!
# Pools that edits can reach

A pool starts empty or is read, and is then edited: constants are interned, alone or with the texts
that they need, and entries are redirected. An edit that fails leaves a pool behind as well, and
edits go on from there. `Reachable` collects all these pools.

* `RedirectEnds` says of redirecting an entry what `Request.Ends` says of a request;
* `reachable_invariant` is the result on every reachable pool.
-/

namespace Jarwright.ClassFile.ConstantPool

variable {pool pool' : ConstantPool} {i : UInt16}

/-- An entry can be redirected to a constant if it is usable and as wide. -/
def Redirectable (pool : ConstantPool) (i : UInt16) (c : Constant) : Prop :=
  ∃ old, pool.get i = .ok old ∧ old.slots = c.slots

/-- How redirecting an entry ends. -/
def RedirectEnds (pool : ConstantPool) (i : UInt16) (c : Constant) :
    EStateM.Result Fault ConstantPool Unit → Prop
  | .ok _ pool' => pool.Redirectable i c ∧ pool'.places = pool.places.set i.toNat c
      ∧ pool'.get i = .ok c
  | .error _ pool' => ¬ pool.Redirectable i c ∧ pool' = pool

/-- The pools that are read or start empty, and those that edits make of them. -/
inductive Reachable : ConstantPool → Prop where
  | empty : Reachable .empty
  | read {bs rest : Bytes} {pool : ConstantPool} : read bs = .ok pool rest → Reachable pool
  | intern {pool : ConstantPool} {request : Request} : Reachable pool → request.Fits →
      Reachable (left (request.intern pool))
  | set {pool : ConstantPool} {i : UInt16} {c : Constant} : Reachable pool → c.Fits →
      Reachable (left (set i c pool))

/-! ## How edits end -/

/-- A request keeps the invariant of the pool, and ends as it should. -/
theorem Request.ends {request : Request} (h : pool.WellFormed) (hfits : request.Fits) :
    (left (request.intern pool)).WellFormed ∧ request.Ends pool (request.intern pool) := by
  have hne : request ≠ .constant .unusable := by
    rintro rfl
    exact hfits
  exact ⟨Request.preserves_wellFormed hfits pool h, Request.ends_of_tabled h.tabled hne⟩

/-- Redirecting an entry keeps the invariant of the pool, and ends as it should. -/
theorem set_ends {c : Constant} (h : pool.WellFormed) (hc : c.Fits) :
    (left (set i c pool)).WellFormed ∧ pool.RedirectEnds i c (set i c pool) := by
  rcases set_cases i c pool with ⟨old, hget, hslots, hrun⟩ | ⟨hfixed, fault, hrun⟩
  · obtain ⟨hwf, hplaces⟩ := set_spec h hc hrun
    rw [hrun]
    refine ⟨hwf, ⟨old, hget, hslots⟩, hplaces, get_eq_ok.2 ⟨?_, hc.ne_unusable⟩⟩
    rw [hplaces]
    exact List.getElem?_set_self (List.getElem?_eq_some_iff.1 (get_eq_ok.1 hget).1).1
  · rw [hrun]
    exact ⟨h, hfixed, rfl⟩

/-! ## Reachable pools -/

theorem wellFormed_empty : empty.WellFormed :=
  ⟨⟨[], rfl, .nil⟩, by decide, indexed_empty⟩

/-- Every step of an edit keeps the invariant, so it holds of all pools that edits reach. -/
theorem Reachable.wellFormed (h : Reachable pool) : pool.WellFormed := by
  induction h with
  | empty => exact wellFormed_empty
  | read hread => exact (of_read hread).1
  | intern _ hfits ih => exact (Request.ends ih hfits).1
  | set _ hc ih => exact (set_ends ih hc).1

/-- What holds of a pool however it was edited. -/
structure Sound (pool : ConstantPool) : Prop where
  layout : LaidOut pool.places
  one_le_count : 1 ≤ pool.count
  count_le : pool.count ≤ 65535
  interned : ∀ request : Request, request.Fits → request.Ends pool (request.intern pool)
  redirected : ∀ (i : UInt16) (c : Constant), c.Fits → pool.RedirectEnds i c (set i c pool)
  written : ∃ pool', ConstantPool.read pool.encode = .ok pool' [] ∧ pool'.places = pool.places

/-- **The invariant of constant pools.**  However a pool was edited, successfully or not, its
unusable slots are where the format has them and there are at most 65535 slots; the next request is
answered with an index at which the constant asked for stands, or refused for want of room, and
leaves all slots in place; redirecting changes one slot, or nothing when it fails. So the pool is
read back from its written form, with nothing left over. -/
theorem reachable_invariant (h : Reachable pool) : pool.Sound := by
  have hwf := h.wellFormed
  have hwritable := hwf.writable
  obtain ⟨pool', hread, hplaces⟩ := hwf.exists_read_encode []
  rw [List.append_nil] at hread
  exact ⟨hwritable.layout, hwritable.one_le_count, hwritable.count_le,
    fun _ hfits => (Request.ends hwf hfits).2, fun _ _ hc => (set_ends hwf hc).2,
    pool', hread, hplaces⟩

/-- The pool that is left when the class `a` is interned, then a wide number, then a text of which
the class is given the name; the last edit, on the unusable slot, fails. -/
def editedPool : ConstantPool :=
  let named := left ((Request.className "a").intern .empty)
  let numbered := left ((Request.constant (.long 7)).intern named)
  let texted := left ((Request.text "b").intern numbered)
  let redirected := left (set 2 (.classRef 5) texted)
  left (set 4 (.classRef 5) redirected)

theorem reachable_editedPool : Reachable editedPool := by
  unfold editedPool
  refine .set (.set (.intern (.intern (.intern .empty ?_) ?_) ?_) ?_) ?_
  all_goals trivial

theorem reachable_invariant_editedPool :
    Reachable editedPool
      ∧ editedPool.places
        = [.unusable, .utf8 [97], .classRef 5, .long 7, .unusable, .utf8 [98]]
      ∧ editedPool.Sound :=
  ⟨reachable_editedPool, by decide +kernel, reachable_invariant reachable_editedPool⟩

end Jarwright.ClassFile.ConstantPool
