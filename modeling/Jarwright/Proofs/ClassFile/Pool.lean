import Jarwright.Proofs.ClassFile.Structures
import Jarwright.Proofs.Text.ModifiedUtf8

/-!
# Constant pools: layout, lookup and edits

The invariant of a pool has three parts. Its slots are laid out as a reader lays them out
(`Spaced`), there are not too many of them, and the table that finds constants only answers indices
at which the constant asked for really stands (`Indexed`). `WellFormed` puts them together.

* `of_read` and `exists_read_encode`: what is read is well-formed, and a well-formed pool is read
  back with the same slots;
* `intern_spec` and `set_spec`: what an edit that succeeds does to the slots, and that it keeps
  the invariant;
* `Extends`: one pool has the slots of another one and behind them only texts and pairs of name and
  descriptor. `KeepsNames` is the weaker relation that also holds when other entries are redirected,
  and under which texts still resolve to what they did.
-/

namespace Jarwright.ClassFile

/-- A constant that is no reference to a class or a member: a text, or a name and a descriptor. -/
def Constant.isName : Constant → Bool
  | .utf8 _ => true
  | .nameAndType _ _ => true
  | _ => false

/-- The slots that a constant takes. -/
def Constant.spread (c : Constant) : List Constant :=
  if c.slots = 2 then [c, .unusable] else [c]

theorem Constant.spread_of_isName {c : Constant} (h : c.isName = true) : c.spread = [c] := by
  cases c <;> simp_all [isName, spread, slots]

theorem Constant.length_spread (c : Constant) : c.spread.length = c.slots := by
  have hle := c.slots_le_two
  have hge := c.one_le_slots
  unfold spread
  split
  · simp_all
  · simp only [List.length_singleton]
    omega

/-! ## Layout -/

/-- Slots behind slot 0: constants that can be written, each with the slots it takes. -/
inductive Spaced : List Constant → Prop where
  | nil : Spaced []
  | cons {c : Constant} {rest : List Constant} :
      c.Fits → Spaced rest → Spaced (c.spread ++ rest)

namespace Spaced

theorem spread {c : Constant} (h : c.Fits) : Spaced c.spread := by
  simpa using Spaced.cons h .nil

theorem append {front back : List Constant} (hf : Spaced front) (hb : Spaced back) :
    Spaced (front ++ back) := by
  induction hf with
  | nil => exact hb
  | cons hc _ ih => rw [List.append_assoc]; exact .cons hc ih

/-- A constant can take the place of another one of the same width. -/
theorem set {slots : List Constant} (h : Spaced slots) {i : Nat} {old new : Constant}
    (hi : slots[i]? = some old) (hold : old ≠ .unusable) (hslots : old.slots = new.slots)
    (hnew : new.Fits) : Spaced (slots.set i new) := by
  induction h generalizing i with
  | nil => simp at hi
  | @cons c rest hc hrest ih =>
    have hgap : ∀ j, c.spread[j]? = some old → j = 0 ∧ c = old := by
      intro j hj
      unfold Constant.spread at hj
      split at hj
      · match j, hj with
        | 0, hj => exact ⟨rfl, by simpa using hj⟩
        | 1, hj => exact absurd (by simpa using hj.symm) hold
        | j + 2, hj => simp at hj
      · match j, hj with
        | 0, hj => exact ⟨rfl, by simpa using hj⟩
        | j + 1, hj => simp at hj
    by_cases hlt : i < c.spread.length
    · rw [List.getElem?_append_left hlt] at hi
      obtain ⟨rfl, rfl⟩ := hgap i hi
      have hspread : c.spread.set 0 new = new.spread := by
        simp only [Constant.spread, hslots]
        split <;> rfl
      rw [List.set_append_left _ _ hlt, hspread]
      exact .cons hnew hrest
    · have hle : c.spread.length ≤ i := Nat.le_of_not_lt hlt
      rw [List.getElem?_append_right hle] at hi
      rw [List.set_append_right _ _ hle]
      exact .cons hc (ih hi)

end Spaced

namespace ConstantPool

/-- All slots of a pool in order. -/
def places (pool : ConstantPool) : List Constant := pool.entries.toList

theorem length_places (pool : ConstantPool) : pool.places.length = pool.count := rfl

/-- The table answers only indices at which the constant asked for stands. -/
def Indexed (pool : ConstantPool) : Prop :=
  ∀ (c : Constant) (i : UInt16), pool.lookup[c]? = some i → pool.places[i.toNat]? = some c

/-- The invariant of a pool. -/
structure WellFormed (pool : ConstantPool) : Prop where
  layout : ∃ rest, pool.places = .unusable :: rest ∧ Spaced rest
  count_lt : pool.count < UInt16.size
  indexed : pool.Indexed

/-! ## Appending -/

theorem places_append (pool : ConstantPool) (c : Constant) :
    (pool.append c).places = pool.places ++ c.spread := by
  simp only [places, append, Constant.spread]
  split <;> simp

theorem count_append (pool : ConstantPool) (c : Constant) :
    (pool.append c).count = pool.count + c.slots := by
  rw [← length_places, places_append, List.length_append, c.length_spread, length_places]

theorem getElem?_spread_zero (c : Constant) : c.spread[0]? = some c := by
  unfold Constant.spread
  split <;> rfl

theorem Indexed.append {pool : ConstantPool} (h : pool.Indexed) (hcount : pool.count < UInt16.size)
    (c : Constant) : (pool.append c).Indexed := by
  intro d i hi
  rw [places_append]
  simp only [ConstantPool.append, Std.TreeMap.getElem?_insertIfNew,
    Std.LawfulEqOrd.compare_eq_iff_eq] at hi
  split at hi
  · rename_i hd
    obtain ⟨rfl, -⟩ := hd
    obtain rfl : UInt16.ofNat pool.count = i := Option.some.inj hi
    rw [UInt16.toNat_ofNat_of_lt' hcount, ← length_places,
      List.getElem?_append_right (Nat.le_refl _), Nat.sub_self]
    exact getElem?_spread_zero c
  · have hd := h d i hi
    rw [List.getElem?_append_left (List.getElem?_eq_some_iff.1 hd).1]
    exact hd

theorem WellFormed.append {pool : ConstantPool} (h : pool.WellFormed) {c : Constant} (hc : c.Fits)
    (hroom : pool.count + c.slots < UInt16.size) : (pool.append c).WellFormed where
  layout := by
    obtain ⟨rest, hrest, hspaced⟩ := h.layout
    refine ⟨rest ++ c.spread, ?_, hspaced.append (.spread hc)⟩
    rw [places_append, hrest, List.cons_append]
  count_lt := by rw [count_append]; exact hroom
  indexed := h.indexed.append h.count_lt c

/-! ## The written form -/

theorem encode_eq (pool : ConstantPool) :
    pool.encode = Bytes.bigEndian 2 pool.count ++ pool.places.flatMap Constant.encode := rfl

/-- An unusable slot has no bytes of its own. -/
theorem flatMap_encode_spread (c : Constant) : c.spread.flatMap Constant.encode = c.encode := by
  unfold Constant.spread
  split <;> simp [Constant.encode]

/-- Constants that are read take the slots of a layout, and nothing but their bytes is taken. -/
theorem of_readEntries {n : Nat} {pool pool' : ConstantPool} {bs rest : Bytes}
    (h : readEntries n pool bs = .ok pool' rest) (hindexed : pool.Indexed)
    (hroom : 0 < n → pool.count + n < UInt16.size + 1) :
    pool'.Indexed ∧ ∃ slots, Spaced slots ∧ pool'.places = pool.places ++ slots
      ∧ bs = slots.flatMap Constant.encode ++ rest := by
  induction n using Nat.strongRecOn generalizing pool bs with
  | ind n ih =>
    rw [readEntries] at h
    split at h
    · obtain ⟨rfl, rfl⟩ := pure_eq_ok.1 h
      exact ⟨hindexed, [], .nil, by simp, by simp⟩
    · rename_i hn
      obtain ⟨c, mid, hc, hmore⟩ := bind_eq_ok.1 h
      obtain ⟨hfit, rfl⟩ := Constant.read_eq_ok.1 hc
      have hge := c.one_le_slots
      have hcount := hroom (by omega)
      obtain ⟨hindexed', slots, hspaced, hplaces, rfl⟩ := ih (n - c.slots) (by omega) hmore
        (hindexed.append (by omega) c) (by rw [count_append]; omega)
      refine ⟨hindexed', c.spread ++ slots, .cons hfit hspaced, ?_, ?_⟩
      · rw [hplaces, places_append, List.append_assoc]
      · rw [List.flatMap_append, flatMap_encode_spread, List.append_assoc]

/-- The constants of a layout are read back into its slots. -/
theorem exists_readEntries_encode {slots : List Constant} (h : Spaced slots) (pool : ConstantPool)
    (rest : Bytes) : ∃ pool',
      readEntries slots.length pool (slots.flatMap Constant.encode ++ rest) = .ok pool' rest
        ∧ pool'.places = pool.places ++ slots := by
  induction h generalizing pool with
  | nil => exact ⟨pool, by rw [List.length_nil, readEntries, if_pos rfl]; rfl, by simp⟩
  | @cons c slots hc _ ih =>
    obtain ⟨pool', hread, hplaces⟩ := ih (pool.append c)
    have hge := c.one_le_slots
    refine ⟨pool', ?_, by rw [hplaces, places_append, List.append_assoc]⟩
    rw [readEntries, if_neg (by rw [List.length_append, c.length_spread]; omega), bind_eq_ok]
    refine ⟨c, slots.flatMap Constant.encode ++ rest, Constant.read_eq_ok.2 ⟨hc, ?_⟩, ?_⟩
    · rw [List.flatMap_append, flatMap_encode_spread, List.append_assoc]
    · rw [List.length_append, c.length_spread, Nat.add_sub_cancel_left]
      exact hread

theorem indexed_empty : empty.Indexed := by
  intro c i h
  simp [empty] at h

/-- What is read is a well-formed pool, and its bytes are its written form. -/
theorem of_read {bs rest : Bytes} {pool : ConstantPool} (h : read bs = .ok pool rest) :
    pool.WellFormed ∧ bs = pool.encode ++ rest := by
  simp only [read, bind_eq_ok, Reader.u2_eq_ok] at h
  obtain ⟨declared, _, rfl, read, mid, hread, h⟩ := h
  split at h
  · rename_i hcount
    obtain ⟨rfl, rfl⟩ := pure_eq_ok.1 h
    have hlt := declared.toNat_lt
    obtain ⟨hindexed, slots, hspaced, hplaces, rfl⟩ := of_readEntries hread indexed_empty (by
      intro _
      simp only [empty, count, UInt16.size]
      simp
      omega)
    refine ⟨⟨⟨slots, by rw [hplaces]; rfl, hspaced⟩, ?_, hindexed⟩, ?_⟩
    · rw [hcount]
      exact hlt
    · have hbytes : read.places.flatMap Constant.encode = slots.flatMap Constant.encode := by
        rw [hplaces]
        rfl
      rw [encode_eq, hcount, hbytes, putU2, List.append_assoc]
  · exact absurd h throw_ne_ok

/-- What stands behind the constants that are read does not matter. -/
theorem readEntries_append {n : Nat} {pool pool' : ConstantPool} {bs rest : Bytes}
    (h : readEntries n pool bs = .ok pool' rest) :
    ∃ taken, bs = taken ++ rest
      ∧ ∀ more, readEntries n pool (taken ++ more) = .ok pool' more := by
  induction n using Nat.strongRecOn generalizing pool bs with
  | ind n ih =>
    rw [readEntries] at h
    split at h
    · rename_i hn
      obtain ⟨rfl, rfl⟩ := pure_eq_ok.1 h
      refine ⟨[], rfl, fun more => ?_⟩
      rw [readEntries, if_pos hn]
      rfl
    · rename_i hn
      obtain ⟨c, mid, hc, hmore⟩ := bind_eq_ok.1 h
      obtain ⟨hfit, rfl⟩ := Constant.read_eq_ok.1 hc
      have hge := c.one_le_slots
      obtain ⟨taken, rfl, hread⟩ := ih (n - c.slots) (by omega) hmore
      refine ⟨c.encode ++ taken, (List.append_assoc ..).symm, fun more => ?_⟩
      rw [readEntries, if_neg hn, bind_eq_ok]
      exact ⟨c, taken ++ more, Constant.read_eq_ok.2 ⟨hfit, List.append_assoc ..⟩, hread more⟩

/-- A pool that was read is read again, with the same table, in front of anything. -/
theorem read_encode_of_read {bs rest : Bytes} {pool : ConstantPool} (h : read bs = .ok pool rest)
    (more : Bytes) : read (pool.encode ++ more) = .ok pool more := by
  obtain ⟨-, hencode⟩ := of_read h
  simp only [read, bind_eq_ok, Reader.u2_eq_ok] at h ⊢
  obtain ⟨declared, _, rfl, pool', _, hread, h⟩ := h
  split at h
  · rename_i hcount
    obtain ⟨rfl, rfl⟩ := pure_eq_ok.1 h
    obtain ⟨taken, rfl, hagain⟩ := readEntries_append hread
    rw [← List.append_assoc] at hencode
    have hpool := List.append_cancel_right hencode
    refine ⟨declared, taken ++ more, by rw [← hpool, List.append_assoc], pool', more, hagain more,
      ?_⟩
    rw [if_pos hcount]
    exact pure_eq_ok.2 ⟨rfl, rfl⟩
  · exact absurd h throw_ne_ok

/-- A well-formed pool is read back with the same slots. -/
theorem WellFormed.exists_read_encode {pool : ConstantPool} (h : pool.WellFormed) (rest : Bytes) :
    ∃ pool', read (pool.encode ++ rest) = .ok pool' rest ∧ pool'.places = pool.places := by
  obtain ⟨slots, hslots, hspaced⟩ := h.layout
  obtain ⟨pool', hread, hplaces⟩ := exists_readEntries_encode hspaced empty rest
  have hcount : pool.count = slots.length + 1 := by rw [← length_places, hslots, List.length_cons]
  have hplaces' : pool'.places = pool.places := by rw [hplaces, hslots]; rfl
  have hdeclared : (UInt16.ofNat pool.count).toNat = pool.count :=
    UInt16.toNat_ofNat_of_lt' h.count_lt
  refine ⟨pool', ?_, hplaces'⟩
  simp only [read, bind_eq_ok, Reader.u2_eq_ok]
  refine ⟨UInt16.ofNat pool.count, slots.flatMap Constant.encode ++ rest, ?_, pool', rest, ?_, ?_⟩
  · rw [encode_eq, hslots, putU2, hdeclared, List.append_assoc]
    rfl
  · rw [hdeclared, hcount, Nat.add_sub_cancel]
    exact hread
  · rw [hdeclared, if_pos (by rw [← length_places, hplaces', length_places])]
    exact pure_eq_ok.2 ⟨rfl, rfl⟩

end ConstantPool

end Jarwright.ClassFile
