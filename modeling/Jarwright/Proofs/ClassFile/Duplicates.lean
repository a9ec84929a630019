import Jarwright.Proofs.ClassFile.History

/-!
# Which constants interning finds

A constant that stands in a slot need not be interned again. The table answers right indices
(`Tabled`), but it need not know every constant: it knows a constant at one index only, and when the
entry at this index is redirected, other slots with the same constant are forgotten.

* `Finds` says that interning answers an index of a constant and leaves the pool alone, `Hides` that
  redirecting an entry takes the one index from the table while another slot has the constant;
* `Knows` is what the table must do for a constant to be found (`finds_of_present_iff_knows`). It
  holds of every pool that no one has edited, requests keep it (`Request.preserves_knows`), and a
  redirect keeps it exactly if it does not hide the constant (`knows_set_iff`);
* `finds_iff_never_hidden` puts this together for histories, and `not_finds_present` is about one
  that hides a text.
-/

namespace Jarwright.ClassFile.ConstantPool

variable {pool start : ConstantPool} {i : UInt16} {c x : Constant}

/-- The constant stands in a slot. -/
def Present (pool : ConstantPool) (x : Constant) : Prop := ∃ i, pool.get i = .ok x

/-- Interning the constant answers an index at which it stands and leaves the pool as it is. -/
def Finds (pool : ConstantPool) (x : Constant) : Prop :=
  ∃ i, pool.get i = .ok x ∧ intern x pool = .ok i pool

/-- Redirecting the entry at an index to `c` hides `x`: interning answers this index for `x`, and
another slot has `x` as well. -/
def Hides (pool : ConstantPool) (i : UInt16) (c x : Constant) : Prop :=
  pool.get i = .ok x ∧ x.slots = c.slots ∧ c ≠ x ∧ intern x pool = .ok i pool
    ∧ ∃ j, j ≠ i ∧ pool.get j = .ok x

/-! ## Finding and the table -/

/-- Every slot has an index. -/
theorem exists_get_eq_ok (h : pool.Tabled) (hx : x ≠ .unusable) {k : Nat}
    (hk : pool.places[k]? = some x) : ∃ j : UInt16, j.toNat = k ∧ pool.get j = .ok x := by
  have hlt : k < UInt16.size := Nat.lt_trans (List.getElem?_eq_some_iff.1 hk).1 h.count_lt
  have hindex : (UInt16.ofNat k).toNat = k := UInt16.toNat_ofNat_of_lt' hlt
  exact ⟨UInt16.ofNat k, hindex, get_eq_ok.2 ⟨by rwa [hindex], hx⟩⟩

theorem present_iff_mem (h : pool.Tabled) (hx : x ≠ .unusable) :
    pool.Present x ↔ x ∈ pool.places := by
  constructor
  · rintro ⟨i, hget⟩
    exact List.mem_of_getElem? (get_eq_ok.1 hget).1
  · intro hmem
    obtain ⟨k, hk⟩ := List.mem_iff_getElem?.1 hmem
    obtain ⟨j, -, hj⟩ := exists_get_eq_ok h hx hk
    exact ⟨j, hj⟩

/-- Only a constant that the table knows is interned without a change. -/
theorem intern_eq_self_iff : intern x pool = .ok i pool ↔ pool.lookup[x]? = some i := by
  rcases intern_cases x pool with ⟨j, hlookup, hrun⟩ | ⟨hlookup, -, hrun⟩ | ⟨hlookup, -, hrun⟩
  · rw [hrun, hlookup]
    simp
  · rw [hrun, hlookup]
    simp only [EStateM.Result.ok.injEq, reduceCtorEq, iff_false]
    rintro ⟨-, happend⟩
    have hcount := congrArg count happend
    have hslots := x.one_le_slots
    rw [count_append] at hcount
    omega
  · rw [hrun, hlookup]
    simp

theorem finds_iff (h : pool.Tabled) (hx : x ≠ .unusable) :
    pool.Finds x ↔ ∃ i, pool.lookup[x]? = some i := by
  constructor
  · rintro ⟨i, -, hrun⟩
    exact ⟨i, intern_eq_self_iff.1 hrun⟩
  · rintro ⟨i, hlookup⟩
    exact ⟨i, get_eq_ok.2 ⟨h.indexed x i hlookup, hx⟩, intern_eq_self_iff.2 hlookup⟩

/-- The table knows the constant if a slot has it. -/
def Knows (pool : ConstantPool) (x : Constant) : Prop :=
  x ∈ pool.places → ∃ i, pool.lookup[x]? = some i

theorem finds_of_present_iff_knows (h : pool.Tabled) (hx : x ≠ .unusable) :
    (pool.Present x → pool.Finds x) ↔ pool.Knows x := by
  rw [present_iff_mem h hx, finds_iff h hx, Knows]

/-! ## Constants that are appended -/

theorem mem_spread (hx : x ≠ .unusable) (hmem : x ∈ c.spread) : x = c := by
  unfold Constant.spread at hmem
  split at hmem <;> simp_all

/-- What a table is given it knows, and it keeps what it knew. -/
theorem exists_getElem?_insertIfNew {lookup : Std.TreeMap Constant UInt16}
    (h : x = c ∨ ∃ j, lookup[x]? = some j) : ∃ j, (lookup.insertIfNew c i)[x]? = some j := by
  rw [Std.TreeMap.getElem?_insertIfNew]
  split
  · exact ⟨i, rfl⟩
  · rename_i hold
    rcases h with rfl | h
    · have hknown : x ∈ lookup :=
        Decidable.byContradiction fun hnew => hold ⟨Std.ReflOrd.compare_self, hnew⟩
      exact ⟨_, Std.TreeMap.getElem?_eq_some_getElem hknown⟩
    · exact h

theorem Knows.append (h : pool.Knows x) (hx : x ≠ .unusable) (c : Constant) :
    (pool.append c).Knows x := by
  intro hmem
  rw [places_append, List.mem_append] at hmem
  refine exists_getElem?_insertIfNew ?_
  rcases hmem with hmem | hmem
  · exact .inr (h hmem)
  · exact .inl (mem_spread hx hmem)

/-- A reader enters every constant into the table. -/
theorem knows_of_readEntries {n : Nat} {read : ConstantPool} {bs rest : Bytes}
    (hread : readEntries n pool bs = .ok read rest) (hx : x ≠ .unusable) (h : pool.Knows x) :
    read.Knows x := by
  induction n using Nat.strongRecOn generalizing pool bs with
  | ind n ih =>
    rw [readEntries] at hread
    split at hread
    · obtain ⟨rfl, -⟩ := pure_eq_ok.1 hread
      exact h
    · obtain ⟨c, mid, -, hmore⟩ := bind_eq_ok.1 hread
      have hge := c.one_le_slots
      exact ih (n - c.slots) (by omega) hmore (h.append hx c)

theorem knows_empty (hx : x ≠ .unusable) : Knows .empty x := by
  intro hmem
  exact absurd (by simpa [places, empty] using hmem) hx

/-- The table of a pool that no one has edited knows all its constants. -/
theorem Unedited.knows (h : Unedited start) (hx : x ≠ .unusable) : start.Knows x := by
  cases h with
  | empty => exact knows_empty hx
  | read hread =>
    simp only [ConstantPool.read, bind_eq_ok] at hread
    obtain ⟨declared, mid, -, pool, _, hentries, hcheck⟩ := hread
    split at hcheck
    · obtain ⟨rfl, -⟩ := pure_eq_ok.1 hcheck
      exact knows_of_readEntries hentries hx (knows_empty hx)
    · exact absurd hcheck throw_ne_ok

theorem preserves_knows (hx : x ≠ .unusable) (c : Constant) : Preserves (Knows · x) (intern c) :=
  .intern fun _ h _ => h.append hx c

theorem Request.preserves_knows (hx : x ≠ .unusable) (request : Request) :
    Preserves (Knows · x) request.intern :=
  Request.preserves (fun c _ => ConstantPool.preserves_knows hx c)
    fun c _ => ConstantPool.preserves_knows hx c

/-! ## Entries that are redirected -/

/-- What the table knows of `x` when the entry `old` at `i` was redirected to another constant. -/
theorem getElem?_lookup_redirected {lookup : Std.TreeMap Constant UInt16} {old : Constant}
    (hc : c ≠ x) :
    ((if lookup[old]? == some i then lookup.erase old else lookup).insertIfNew c i)[x]?
      = if old = x ∧ lookup[x]? = some i then none else lookup[x]? := by
  rw [Std.TreeMap.getElem?_insertIfNew, if_neg (by simp [hc])]
  by_cases hold : lookup[old]? = some i
  · rw [if_pos (by simp [hold]), Std.TreeMap.getElem?_erase]
    by_cases heq : old = x
    · subst heq
      simp [hold]
    · simp [heq]
  · rw [if_neg (by simp [hold])]
    by_cases heq : old = x
    · subst heq
      simp [hold]
    · simp [heq]

/-- Another slot than the redirected one has `x`. -/
theorem mem_places_set_iff (htabled : pool.Tabled) (hx : x ≠ .unusable) (hc : c ≠ x) :
    x ∈ pool.places.set i.toNat c ↔ ∃ j, j ≠ i ∧ pool.get j = .ok x := by
  constructor
  · intro hmem
    obtain ⟨k, hk⟩ := List.mem_iff_getElem?.1 hmem
    rw [List.getElem?_set] at hk
    split at hk
    · split at hk
      · exact absurd (Option.some.inj hk) hc
      · cases hk
    · rename_i hne
      obtain ⟨j, rfl, hj⟩ := exists_get_eq_ok htabled hx hk
      exact ⟨j, fun hij => hne (congrArg UInt16.toNat hij.symm), hj⟩
  · rintro ⟨j, hne, hget⟩
    have hne' : i.toNat ≠ j.toNat := fun h => hne (UInt16.toNat_inj.1 h).symm
    have hslot := (get_eq_ok.1 hget).1
    rw [← List.getElem?_set_ne hne' (a := c)] at hslot
    exact List.mem_of_getElem? hslot

/-- Redirecting an entry makes the table forget `x` exactly if it hides `x`. -/
theorem knows_set_iff (htabled : pool.Tabled) (hx : x ≠ .unusable) (h : pool.Knows x) :
    (left (set i c pool)).Knows x ↔ ¬ pool.Hides i c x := by
  rcases set_cases i c pool with ⟨old, hget, hslots, hrun⟩ | ⟨hfixed, fault, hrun⟩
  · have hplaces : (left (set i c pool)).places = pool.places.set i.toNat c := by
      rw [hrun]
      simp [left, places]
    unfold Knows
    rw [hplaces, hrun]
    by_cases hc : c = x
    · exact iff_of_true (fun _ => exists_getElem?_insertIfNew (.inl hc.symm))
        fun hhides => hhides.2.2.1 hc
    · simp only [left, getElem?_lookup_redirected hc]
      by_cases hlost : old = x ∧ pool.lookup[x]? = some i
      · obtain ⟨rfl, hlookup⟩ := hlost
        simp only [hlookup, and_self, if_true, reduceCtorEq, exists_false, imp_false]
        rw [mem_places_set_iff htabled hx hc]
        exact not_congr ⟨fun hother => ⟨hget, hslots, hc, intern_eq_self_iff.2 hlookup, hother⟩,
          fun hhides => hhides.2.2.2.2⟩
      · rw [if_neg hlost]
        refine iff_of_true (fun hmem => ?_) ?_
        · obtain ⟨j, -, hj⟩ := (mem_places_set_iff htabled hx hc).1 hmem
          exact h (List.mem_of_getElem? (get_eq_ok.1 hj).1)
        · rintro ⟨hgetx, -, -, hrunx, -⟩
          exact hlost ⟨Except.ok.inj (hget.symm.trans hgetx), intern_eq_self_iff.1 hrunx⟩
  · rw [hrun]
    refine iff_of_true h ?_
    rintro ⟨hget, hslots, -⟩
    exact hfixed ⟨x, hget, hslots⟩

/-! ## Histories -/

theorem edited_take_succ {history : List Operation} {k : Nat} {op : Operation}
    (hop : history[k]? = some op) :
    edited start (history.take (k + 1)) = op.apply (edited start (history.take k)) := by
  rw [List.take_add_one, hop, edited, List.foldl_append]
  rfl

/-- **Which constants interning finds.**  At every stage of a history, interning a constant that
stands in a slot answers an index of it and changes nothing, provided that no operation of the
history hides the constant; and a redirect that hides it is followed by a stage at which the
constant stands in a slot and is not found. -/
theorem finds_iff_never_hidden (hstart : Unedited start) (history : List Operation)
    (hx : x ≠ .unusable) :
    (∀ k, (edited start (history.take k)).Present x → (edited start (history.take k)).Finds x)
      ↔ ∀ k i c, history[k]? = some (.set i c) →
        ¬ (edited start (history.take k)).Hides i c x := by
  have htabled (k : Nat) := tabled_edited hstart (history.take k)
  simp only [finds_of_present_iff_knows (htabled _) hx]
  constructor
  · intro hknows k i c hop
    have hnext := hknows (k + 1)
    rw [edited_take_succ hop] at hnext
    exact (knows_set_iff (htabled k) hx (hknows k)).1 hnext
  · intro hnever k
    induction k with
    | zero => exact hstart.knows hx
    | succ k ih =>
      cases hop : history[k]? with
      | none =>
        rw [List.take_add_one, hop, Option.toList_none, List.append_nil]
        exact ih
      | some op =>
        rw [edited_take_succ hop]
        cases op with
        | intern request => exact request.preserves_knows hx _ ih
        | set i c => exact (knows_set_iff (htabled k) hx ih).2 (hnever k i c hop)

/-- The text `a` is made to stand in two slots, of which interning answers the first; then the entry
at an index is redirected to another text. -/
def doubledHistory (i : UInt16) : List Operation :=
  [.intern (.text "a"), .intern (.text "b"), .set 2 (.utf8 [97]), .set i (.utf8 [99])]

/-- Redirecting the second of the two slots hides nothing. -/
theorem finds_iff_never_hidden_doubled :
    Unedited .empty ∧ Constant.utf8 [97] ≠ .unusable
      ∧ (edited .empty (doubledHistory 2)).places = [.unusable, .utf8 [97], .utf8 [99]]
      ∧ (edited .empty (doubledHistory 2)).Finds (.utf8 [97]) := by
  have hne : Constant.utf8 [97] ≠ .unusable := by simp
  have hplaces : (edited .empty (doubledHistory 2)).places = [.unusable, .utf8 [97], .utf8 [99]] :=
    by decide +kernel
  have hpresent : (edited .empty (doubledHistory 2)).Present (.utf8 [97]) :=
    ⟨1, get_eq_ok.2 ⟨by rw [hplaces]; rfl, hne⟩⟩
  have hanswer : answer? (intern (.utf8 [97]) (edited .empty ((doubledHistory 2).take 3)))
      = some 1 := by decide +kernel
  have hfinds := (finds_iff_never_hidden .empty (doubledHistory 2) hne).2 (by
    intro k i c hop
    obtain _ | _ | _ | _ | k := k
    · cases hop
    · cases hop
    · cases hop
      exact fun hhides => hhides.2.2.1 rfl
    · cases hop
      rintro ⟨-, -, -, hrun, -⟩
      rw [hrun] at hanswer
      exact absurd (Option.some.inj hanswer) (by decide)
    · cases hop)
  exact ⟨.empty, hne, hplaces, hfinds 4 hpresent⟩

/-- Redirecting the first of the two slots hides the text: the second one still has it, and
interning it makes the pool longer. -/
theorem not_finds_present :
    ¬ ∀ (start : ConstantPool) (history : List Operation) (x : Constant), Unedited start →
      x ≠ .unusable → (edited start history).Present x → (edited start history).Finds x := by
  intro hall
  have hne : Constant.utf8 [97] ≠ .unusable := by simp
  have hplaces : (edited .empty (doubledHistory 1)).places = [.unusable, .utf8 [99], .utf8 [97]] :=
    by decide +kernel
  have hlonger : (left (intern (.utf8 [97]) (edited .empty (doubledHistory 1)))).count = 4 := by
    decide +kernel
  obtain ⟨i, -, hrun⟩ := hall .empty (doubledHistory 1) (.utf8 [97]) .empty hne
    ⟨2, get_eq_ok.2 ⟨by rw [hplaces]; rfl, hne⟩⟩
  rw [hrun, left, ← length_places, hplaces] at hlonger
  cases hlonger

end Jarwright.ClassFile.ConstantPool
