import Jarwright.Proofs.ClassFile.Pool

/-!
# Which slots of a pool are unusable

`Spaced` follows a reader, which lays out constant after constant. `LaidOut` describes the same
slots without one: slot 0 is unusable, and every other slot is unusable exactly if the slot before
it holds a constant of two slots. `laidOut_iff_spaced` is the equivalence.

`ConstantPool.Writable` asks for this layout, for texts that are not too long and for at most 65535
slots; it says nothing about the table that finds constants, since the table is not written.
-/

namespace Jarwright.ClassFile

/-- Behind each wide constant stands an unusable slot, and behind no other one. -/
def Gapped (slots : List Constant) : Prop :=
  ∀ i c, slots[i]? = some c → (slots[i + 1]? = some .unusable ↔ c.slots = 2)

theorem gapped_nil : Gapped [] := by
  intro i c h
  simp at h

theorem gapped_cons {c : Constant} {slots : List Constant} :
    Gapped (c :: slots) ↔ (slots[0]? = some .unusable ↔ c.slots = 2) ∧ Gapped slots := by
  constructor
  · intro h
    exact ⟨h 0 c rfl, fun i d hd => h (i + 1) d hd⟩
  · rintro ⟨hfirst, hrest⟩ i d hd
    cases i with
    | zero =>
      obtain rfl : c = d := Option.some.inj hd
      exact hfirst
    | succ i => exact hrest i d hd

/-- The slots of a pool as the class-file format has them. -/
structure LaidOut (slots : List Constant) : Prop where
  first : slots[0]? = some .unusable
  gapped : Gapped slots
  texts : ∀ bytes, .utf8 bytes ∈ slots → bytes.length ≤ 65535

theorem Constant.Fits.ne_unusable {c : Constant} (h : c.Fits) : c ≠ .unusable := by
  rintro rfl
  exact h

theorem Constant.fits_of_texts {c : Constant} (hne : c ≠ .unusable)
    (htext : ∀ bytes, c = .utf8 bytes → bytes.length ≤ 65535) : c.Fits := by
  cases c with
  | unusable => exact hne rfl
  | utf8 bytes => exact Nat.lt_succ_of_le (htext bytes rfl)
  | _ => trivial

namespace Spaced

/-- Spaced slots are gapped behind any slot that is not wide itself. -/
theorem gapped {slots : List Constant} (h : Spaced slots) :
    ∀ {head : Constant}, head.slots ≠ 2 → Gapped (head :: slots) := by
  induction h with
  | nil =>
    intro head hhead
    exact gapped_cons.2 ⟨⟨fun h => by simp at h, fun h => absurd h hhead⟩, gapped_nil⟩
  | @cons c rest hc _ ih =>
    intro head hhead
    have hne := hc.ne_unusable
    unfold Constant.spread
    split
    · rename_i hwide
      refine gapped_cons.2 ⟨?_, gapped_cons.2 ⟨?_, ih (by simp [Constant.slots])⟩⟩
      · simp [hne, hhead]
      · simp [hwide]
    · rename_i hnarrow
      refine gapped_cons.2 ⟨?_, ih hnarrow⟩
      simp [hne, hhead]

theorem texts {slots : List Constant} (h : Spaced slots) {bytes : Bytes}
    (hmem : .utf8 bytes ∈ slots) : bytes.length ≤ 65535 := by
  induction h with
  | nil => cases hmem
  | @cons c rest hc _ ih =>
    rcases List.mem_append.1 hmem with hmem | hmem
    · have hself : c = .utf8 bytes := by
        unfold Constant.spread at hmem
        split at hmem <;> simp_all
      subst hself
      exact Nat.le_of_lt_succ hc
    · exact ih hmem

/-- Gapped slots behind a slot that is not wide can be read off constant by constant. -/
theorem of_gapped : ∀ {slots : List Constant} {head : Constant}, head.slots ≠ 2 →
    Gapped (head :: slots) → (∀ bytes, .utf8 bytes ∈ slots → bytes.length ≤ 65535) → Spaced slots
  | [], _, _, _, _ => .nil
  | c :: rest, head, hhead, hgapped, htexts => by
    obtain ⟨hfirst, hgapped⟩ := gapped_cons.1 hgapped
    have hne : c ≠ .unusable := by
      rintro rfl
      exact hhead (hfirst.1 rfl)
    have hfits : c.Fits :=
      Constant.fits_of_texts hne fun bytes hc => htexts bytes (hc ▸ List.mem_cons_self ..)
    obtain ⟨hnext, hrest⟩ := gapped_cons.1 hgapped
    by_cases hwide : c.slots = 2
    · obtain ⟨back, rfl⟩ : ∃ back, rest = .unusable :: back := by
        cases rest with
        | nil => exact absurd (hnext.2 hwide) (by simp)
        | cons d back => exact ⟨back, by rw [Option.some.inj (hnext.2 hwide)]⟩
      have hspread : c.spread = [c, .unusable] := if_pos hwide
      have hback : Spaced back :=
        of_gapped (by simp [Constant.slots]) hrest fun bytes h =>
          htexts bytes (List.mem_cons_of_mem _ (List.mem_cons_of_mem _ h))
      have := Spaced.cons hfits hback
      rwa [hspread] at this
    · have hspread : c.spread = [c] := if_neg hwide
      have hback : Spaced rest :=
        of_gapped hwide hgapped fun bytes h => htexts bytes (List.mem_cons_of_mem _ h)
      have := Spaced.cons hfits hback
      rwa [hspread] at this

end Spaced

/-- The layout of the format is the one that a reader produces. -/
theorem laidOut_iff_spaced {slots : List Constant} :
    LaidOut slots ↔ ∃ rest, slots = .unusable :: rest ∧ Spaced rest := by
  constructor
  · rintro ⟨hfirst, hgapped, htexts⟩
    cases slots with
    | nil => simp at hfirst
    | cons c rest =>
      obtain rfl : c = .unusable := Option.some.inj hfirst
      refine ⟨rest, rfl, Spaced.of_gapped (by simp [Constant.slots]) hgapped ?_⟩
      exact fun bytes h => htexts bytes (List.mem_cons_of_mem _ h)
  · rintro ⟨rest, rfl, hspaced⟩
    refine ⟨rfl, hspaced.gapped (by simp [Constant.slots]), fun bytes h => ?_⟩
    exact hspaced.texts (by simpa using h)

namespace ConstantPool

/-- A pool that can be written without loss. -/
structure Writable (pool : ConstantPool) : Prop where
  layout : LaidOut pool.places
  count_le : pool.count ≤ 65535

theorem WellFormed.writable {pool : ConstantPool} (h : pool.WellFormed) : pool.Writable :=
  ⟨laidOut_iff_spaced.2 h.layout, Nat.le_of_lt_succ h.count_lt⟩

/-- With a table that finds nothing, a pool that can be written is well-formed. -/
theorem Writable.wellFormed {pool : ConstantPool} (h : pool.Writable) :
    WellFormed ⟨pool.entries, ∅⟩ where
  layout := laidOut_iff_spaced.1 h.layout
  count_lt := Nat.lt_succ_of_le h.count_le
  indexed := by
    intro c i hi
    simp at hi

theorem Writable.of_places {a b : ConstantPool} (hplaces : b.places = a.places) (h : a.Writable) :
    b.Writable :=
  ⟨hplaces ▸ h.layout, by rw [← length_places, hplaces]; exact h.count_le⟩

/-- A pool that can be written has its slot 0. -/
theorem Writable.one_le_count {pool : ConstantPool} (h : pool.Writable) : 1 ≤ pool.count :=
  (List.getElem?_eq_some_iff.1 h.layout.first).1

end ConstantPool

end Jarwright.ClassFile
