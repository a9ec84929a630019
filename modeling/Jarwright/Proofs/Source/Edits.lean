import Jarwright.Source.AccessMap
import Mathlib.Data.List.Pairwise
import Mathlib.Tactic.Conv

/-!
# Several edits of one text

Edits hold offsets into the text as it was, but are carried out one after the other. That is right
because the last one comes first: what is in front of an edit is still as it was when its turn comes
(`changed_foldr`, an induction from the last edit to the first).

* `Changed` says what a text with changes is, with all of them made at once;
* `Edit.Before` and `Edit.Apart`: the stretches of two edits do not meet;
* `applyAll_changed`: edits that lie apart are changes, whatever order they are given in;
* `applyAll_perm`: and so the order does not count.
-/

namespace Jarwright.Source.AccessMap

/-- A stretch of a text with what stands there instead. -/
structure Change where
  start : Nat
  old : List Char
  new : List Char

/-- The first text, which begins at an offset, has become the second one by these changes: between
them and behind the last one both texts are the same. -/
inductive Changed : Nat → List Change → List Char → List Char → Prop
  | rest (n : Nat) (cs : List Char) : Changed n [] cs cs
  | change {n : Nat} {gap old new cs cs' : List Char} {changes : List Change} :
    Changed (n + gap.length + old.length) changes cs cs' →
    Changed n (⟨n + gap.length, old, new⟩ :: changes) (gap ++ old ++ cs) (gap ++ new ++ cs')

namespace Edit

/-- What an edit changes. -/
def change (source : List Char) (e : Edit) : Change :=
  ⟨e.start, (source.drop e.start).take (e.stop - e.start), e.text⟩

/-- The edit is about a stretch of the text. -/
structure Fits (source : List Char) (e : Edit) : Prop where
  start_le : e.start ≤ e.stop
  stop_le : e.stop ≤ source.length

/-- The stretch of the first edit ends where that of the second one starts, or before. -/
structure Before (e e' : Edit) : Prop where
  start_lt : e.start < e'.start
  stop_le : e.stop ≤ e'.start

theorem before_iff {e e' : Edit} : e.Before e' ↔ e.start < e'.start ∧ e.stop ≤ e'.start :=
  ⟨fun h => ⟨h.start_lt, h.stop_le⟩, fun h => ⟨h.1, h.2⟩⟩

/-- The stretches of the edits do not meet. -/
def Apart (e e' : Edit) : Prop := e.Before e' ∨ e'.Before e

instance : Std.Symm Apart := ⟨fun _ _ => Or.symm⟩

theorem Apart.start_ne {e e' : Edit} (h : e.Apart e') : e.start ≠ e'.start := by
  rcases h with h | h
  · exact Nat.ne_of_lt h.start_lt
  · exact Nat.ne_of_gt h.start_lt

variable {source : List Char} {edits : List Edit}

/-- The text behind an offset is a gap, the stretch of the edit, and what is behind that. -/
theorem Fits.exists_gap {e : Edit} {n : Nat} (h : e.Fits source) (hn : n ≤ e.start) :
    ∃ gap, e.change source = ⟨n + gap.length, (e.change source).old, e.text⟩
      ∧ n + gap.length + (e.change source).old.length = e.stop
      ∧ source.take e.start = source.take n ++ gap
      ∧ source.drop n = gap ++ (e.change source).old ++ source.drop e.stop := by
  obtain ⟨hle, hlength⟩ := h
  have hgap : n + ((source.drop n).take (e.start - n)).length = e.start := by
    rw [List.length_take, List.length_drop]
    omega
  have hsplit (i j : Nat) (hij : i ≤ j) :
      (source.drop i).take (j - i) ++ source.drop j = source.drop i := by
    conv_rhs => rw [← List.take_append_drop (j - i) (source.drop i), List.drop_drop,
      Nat.add_sub_cancel' hij]
  refine ⟨(source.drop n).take (e.start - n), ?_, ?_, ?_, ?_⟩
  · rw [hgap]
    rfl
  · rw [hgap, change, List.length_take, List.length_drop]
    omega
  · rw [← List.take_add, Nat.add_sub_cancel' hn]
  · rw [change, List.append_assoc, hsplit e.start e.stop hle, hsplit n e.start hn]

/-- An edit behind an offset leaves the text up to the offset, and makes its change in the rest. -/
theorem changed_apply {e : Edit} {n : Nat} {changes : List Change} {rest : List Char}
    (hfits : e.Fits source) (hn : n ≤ e.start) (h : Changed e.stop changes (source.drop e.stop) rest) :
    ∃ rest', e.apply (source.take e.stop ++ rest) = source.take n ++ rest'
      ∧ Changed n (e.change source :: changes) (source.drop n) rest' := by
  obtain ⟨gap, hchange, hstop, hfront, hdrop⟩ := hfits.exists_gap hn
  refine ⟨gap ++ e.text ++ rest, ?_, ?_⟩
  · have hlength : (source.take e.stop).length = e.stop := List.length_take_of_le hfits.stop_le
    have htake : (source.take e.stop ++ rest).take e.start = source.take e.start := by
      rw [List.take_append_of_le_length (by rw [hlength]; exact hfits.start_le), List.take_take,
        Nat.min_eq_left hfits.start_le]
    rw [apply, htake, hfront, List.drop_left' hlength]
    simp only [List.append_assoc]
  · rw [hchange, hdrop]
    exact .change (hstop.symm ▸ h)

/-- Edits in the order of their places, made from the last one to the first. -/
theorem changed_foldr (hfits : ∀ e ∈ edits, e.Fits source) (hbefore : edits.Pairwise Before)
    {n : Nat} (hn : ∀ e ∈ edits, n ≤ e.start) :
    ∃ rest, edits.foldr Edit.apply source = source.take n ++ rest
      ∧ Changed n (edits.map (change source)) (source.drop n) rest := by
  induction edits generalizing n with
  | nil => exact ⟨source.drop n, (List.take_append_drop n source).symm, .rest n _⟩
  | cons e edits ih =>
    obtain ⟨hfirst, hrest⟩ := List.forall_mem_cons.1 hfits
    obtain ⟨hbehind, hbefore⟩ := List.pairwise_cons.1 hbefore
    obtain ⟨rest, hfold, hchanged⟩ := ih hrest hbefore fun e' he' => (hbehind e' he').stop_le
    rw [List.foldr_cons, hfold, List.map_cons]
    exact changed_apply hfirst (hn e List.mem_cons_self) hchanged

/-! ## Any order -/

/-- The edits from the first place to the last. -/
def inOrder (edits : List Edit) : List Edit :=
  (edits.mergeSort fun a b => b.start ≤ a.start).reverse

theorem inOrder_perm (edits : List Edit) : (inOrder edits).Perm edits :=
  (List.reverse_perm _).trans (List.mergeSort_perm _ _)

theorem applyAll_eq (edits : List Edit) (source : List Char) :
    applyAll edits source = (inOrder edits).foldr Edit.apply source := by
  rw [applyAll, inOrder, List.foldr_reverse]

theorem applyAll_nil (source : List Char) : applyAll [] source = source := by
  simp [applyAll]

theorem pairwise_start_inOrder (edits : List Edit) :
    (inOrder edits).Pairwise fun e e' => e.start ≤ e'.start := by
  have hsorted : (edits.mergeSort fun a b => decide (b.start ≤ a.start)).Pairwise
      fun a b => decide (b.start ≤ a.start) = true := by
    refine List.pairwise_mergeSort (fun a b c hab hbc => ?_) (fun a b => ?_) edits
    · simp only [decide_eq_true_eq] at hab hbc ⊢
      omega
    · simp only [Bool.or_eq_true, decide_eq_true_eq]
      omega
  rw [inOrder, List.pairwise_reverse]
  exact hsorted.imp fun h => by simpa using h

theorem pairwise_inOrder (hapart : edits.Pairwise Apart) : (inOrder edits).Pairwise Before := by
  have hapart' : (inOrder edits).Pairwise Apart :=
    (inOrder_perm edits).symm.pairwise hapart Or.symm
  refine ((pairwise_start_inOrder edits).and hapart').imp fun ⟨hle, h⟩ => ?_
  rcases h with h | h
  · exact h
  · have := h.start_lt
    omega

/-- **Edits that lie apart are made as if at once**, each at its place in the text as it was. -/
theorem applyAll_changed (hfits : ∀ e ∈ edits, e.Fits source) (hapart : edits.Pairwise Apart) :
    Changed 0 ((inOrder edits).map (change source)) source (applyAll edits source) := by
  have hfits' : ∀ e ∈ inOrder edits, e.Fits source := fun e he =>
    hfits e ((inOrder_perm edits).mem_iff.1 he)
  obtain ⟨rest, hfold, hchanged⟩ :=
    changed_foldr hfits' (pairwise_inOrder hapart) (n := 0) fun _ _ => Nat.zero_le _
  rw [applyAll_eq, hfold]
  simpa using hchanged

/-- A list of edits has one order. -/
theorem inOrder_eq {edits' : List Edit} (hapart : edits.Pairwise Apart) (hperm : edits'.Perm edits)
    (hsorted : edits'.Pairwise fun e e' => e.start ≤ e'.start) : inOrder edits = edits' := by
  refine List.Perm.eq_of_pairwise (fun e e' he he' hle hge => ?_) (pairwise_start_inOrder edits)
    hsorted ((inOrder_perm edits).trans hperm.symm)
  by_contra hne
  have hmem : e ∈ edits := (inOrder_perm edits).mem_iff.1 he
  have hmem' : e' ∈ edits := hperm.mem_iff.1 he'
  exact (hapart.forall hmem hmem' hne).start_ne (Nat.le_antisymm hle hge)

/-- In whatever order such edits are collected, the text becomes the same. -/
theorem applyAll_perm {edits' : List Edit} (hapart : edits.Pairwise Apart)
    (hperm : edits'.Perm edits) : applyAll edits' source = applyAll edits source := by
  have horder : inOrder edits = inOrder edits' :=
    inOrder_eq hapart ((inOrder_perm edits').trans hperm) (pairwise_start_inOrder edits')
  rw [applyAll_eq, applyAll_eq, horder]

/-- Edits that are given in their order are made from the last one to the first. -/
theorem applyAll_of_pairwise (hbefore : edits.Pairwise Before) :
    applyAll edits source = edits.foldr Edit.apply source := by
  rw [applyAll_eq, inOrder_eq (hbefore.imp .inl) (.refl edits)
    (hbefore.imp fun h => Nat.le_of_lt h.start_lt)]

end Edit

end Jarwright.Source.AccessMap
