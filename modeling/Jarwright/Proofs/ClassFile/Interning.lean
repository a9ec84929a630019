import Jarwright.Proofs.ClassFile.Pool

/-!
# Constant pools: resolving indices and adding constants

What an index resolves to depends on the slots alone, and edits are described by what they do to
the slots.

* `intern_spec`, `set_spec`: an edit that succeeds keeps the invariant of the pool; interning
  appends at most the constant asked for, and `set` changes one slot;
* `Extends`: one pool has the slots of another one and behind them only texts and pairs of name and
  descriptor. `internUtf8_spec` and `internNameAndType_spec` say that interning a name extends the
  pool, and what the index it answers resolves to;
* `KeepsNames` is the weaker relation that also holds when other entries are redirected. It is
  enough for texts to resolve to what they did.
-/

namespace Jarwright.ClassFile.ConstantPool

variable {pool pool' : ConstantPool} {i : UInt16}

/-! ## Resolving indices -/

theorem get_eq_ok {c : Constant} :
    pool.get i = .ok c ↔ pool.places[i.toNat]? = some c ∧ c ≠ .unusable := by
  rw [places, Array.getElem?_toList]
  unfold get
  split
  · rename_i h
    simp [h]
  · rename_i h
    simp only [h, Option.some.injEq, reduceCtorEq, false_iff]
    rintro ⟨rfl, hne⟩
    exact hne rfl
  · rename_i d hd h
    simp only [h, Except.ok.injEq, Option.some.injEq]
    constructor
    · rintro rfl
      exact ⟨rfl, hd⟩
    · exact fun h => h.1

theorem utf8_eq_ok {s : String} :
    pool.utf8 i = .ok s
      ↔ ∃ bytes, pool.places[i.toNat]? = some (.utf8 bytes)
        ∧ Text.ModifiedUtf8.decode? bytes = some s.toList := by
  constructor
  · intro h
    unfold utf8 at h
    split at h
    · cases h
    · rename_i bytes hget
      refine ⟨bytes, (get_eq_ok.1 hget).1, ?_⟩
      split at h
      · rename_i cs hcs
        obtain rfl : String.ofList cs = s := by simpa using h
        rw [hcs, String.toList_ofList]
      · cases h
    · cases h
  · rintro ⟨bytes, hslot, hdecode⟩
    have hget : pool.get i = .ok (.utf8 bytes) := get_eq_ok.2 ⟨hslot, by simp⟩
    simp only [utf8, hget, hdecode, String.ofList_toList]

theorem className_eq_ok {s : String} :
    pool.className i = .ok s
      ↔ ∃ name, pool.places[i.toNat]? = some (.classRef name) ∧ pool.utf8 name = .ok s := by
  constructor
  · intro h
    unfold className at h
    split at h
    · cases h
    · rename_i name hget
      exact ⟨name, (get_eq_ok.1 hget).1, h⟩
    · cases h
  · rintro ⟨name, hslot, htext⟩
    have hget : pool.get i = .ok (.classRef name) := get_eq_ok.2 ⟨hslot, by simp⟩
    simp only [className, hget, htext]

theorem nameAndType_eq_ok {n d : String} :
    pool.nameAndType i = .ok (n, d)
      ↔ ∃ name descriptor, pool.places[i.toNat]? = some (.nameAndType name descriptor)
        ∧ pool.utf8 name = .ok n ∧ pool.utf8 descriptor = .ok d := by
  constructor
  · intro h
    unfold nameAndType at h
    split at h
    · cases h
    · rename_i name descriptor hget
      refine ⟨name, descriptor, (get_eq_ok.1 hget).1, ?_⟩
      simp only [except_bind_eq_ok, except_pure_eq_ok, Prod.mk.injEq] at h
      obtain ⟨_, hn, _, hd, rfl, rfl⟩ := h
      exact ⟨hn, hd⟩
    · cases h
  · rintro ⟨name, descriptor, hslot, hn, hd⟩
    have hget : pool.get i = .ok (.nameAndType name descriptor) := get_eq_ok.2 ⟨hslot, by simp⟩
    simp only [nameAndType, hget, hn, hd]
    rfl

/-! ## Pools with the same names -/

/-- Every text and every pair of name and descriptor of the first pool stands at its index in the
second one. -/
def KeepsNames (a b : ConstantPool) : Prop :=
  ∀ (i : Nat) (c : Constant), c.isName = true → a.places[i]? = some c → b.places[i]? = some c

namespace KeepsNames

variable {a b c : ConstantPool}

theorem refl (a : ConstantPool) : a.KeepsNames a := fun _ _ _ h => h

theorem trans (hab : a.KeepsNames b) (hbc : b.KeepsNames c) : a.KeepsNames c :=
  fun i d hd h => hbc i d hd (hab i d hd h)

theorem utf8 (hab : a.KeepsNames b) {s : String} (h : a.utf8 i = .ok s) : b.utf8 i = .ok s := by
  obtain ⟨bytes, hslot, hdecode⟩ := utf8_eq_ok.1 h
  exact utf8_eq_ok.2 ⟨bytes, hab _ _ rfl hslot, hdecode⟩

theorem nameAndType (hab : a.KeepsNames b) {p : String × String} (h : a.nameAndType i = .ok p) :
    b.nameAndType i = .ok p := by
  obtain ⟨n, d⟩ := p
  obtain ⟨name, descriptor, hslot, hn, hd⟩ := nameAndType_eq_ok.1 h
  exact nameAndType_eq_ok.2 ⟨name, descriptor, hab _ _ rfl hslot, hab.utf8 hn, hab.utf8 hd⟩

end KeepsNames

/-- The second pool is well-formed, and it is the first one with names behind it. -/
structure Extends (a b : ConstantPool) : Prop where
  wellFormed : b.WellFormed
  added : ∃ names, b.places = a.places ++ names ∧ ∀ c ∈ names, c.isName = true

namespace Extends

variable {a b c : ConstantPool}

theorem refl (h : a.WellFormed) : a.Extends a := ⟨h, [], by simp, by simp⟩

theorem of_places_eq (h : b.WellFormed) (heq : b.places = a.places) : a.Extends b :=
  ⟨h, [], by simp [heq], by simp⟩

theorem trans (hab : a.Extends b) (hbc : b.Extends c) : a.Extends c := by
  obtain ⟨-, names, hb, hnames⟩ := hab
  obtain ⟨hwf, more, hc, hmore⟩ := hbc
  refine ⟨hwf, names ++ more, by rw [hc, hb, List.append_assoc], ?_⟩
  intro d hd
  rcases List.mem_append.1 hd with hd | hd
  · exact hnames d hd
  · exact hmore d hd

/-- What stands at an index stays there. -/
theorem getElem? (hab : a.Extends b) {i : Nat} {c : Constant} (h : a.places[i]? = some c) :
    b.places[i]? = some c := by
  obtain ⟨-, names, hb, -⟩ := hab
  rw [hb, List.getElem?_append_left (List.getElem?_eq_some_iff.1 h).1]
  exact h

theorem keepsNames (hab : a.Extends b) : a.KeepsNames b := fun _ _ _ h => hab.getElem? h

end Extends

/-! ## Adding constants -/

/-- All that interning a constant can do: it answers what the table knows, appends the constant, or
finds no room for it. -/
theorem intern_cases (c : Constant) (pool : ConstantPool) :
    (∃ i, pool.lookup[c]? = some i ∧ intern c pool = .ok i pool)
      ∨ (pool.lookup[c]? = none ∧ pool.count + c.slots ≤ 65535
        ∧ intern c pool = .ok (UInt16.ofNat pool.count) (pool.append c))
      ∨ (pool.lookup[c]? = none ∧ 65535 < pool.count + c.slots
        ∧ intern c pool = .error .poolFull pool) := by
  cases hlookup : pool.lookup[c]? with
  | some i => exact .inl ⟨i, rfl, by simp only [intern, hlookup]⟩
  | none =>
    by_cases hroom : pool.count + c.slots > 65535
    · refine .inr (.inr ⟨rfl, hroom, ?_⟩)
      simp only [intern, hlookup, if_pos hroom]
    · refine .inr (.inl ⟨rfl, Nat.le_of_not_lt hroom, ?_⟩)
      simp only [intern, hlookup, if_neg hroom]

/-- An appended constant stands at the index that interning answers for it. -/
theorem getElem?_append_count (hcount : pool.count < UInt16.size) (c : Constant) :
    (pool.append c).places[(UInt16.ofNat pool.count).toNat]? = some c := by
  rw [places_append, UInt16.toNat_ofNat_of_lt' hcount, ← length_places,
    List.getElem?_append_right (Nat.le_refl _), Nat.sub_self]
  exact getElem?_spread_zero c

/-- The index that interning answers is one at which the constant stands, and slots are only added
for a constant that is new. -/
theorem intern_spec {c : Constant} (h : pool.WellFormed) (hc : c.Fits)
    (hintern : intern c pool = .ok i pool') :
    pool'.WellFormed ∧ pool'.places[i.toNat]? = some c
      ∧ (pool' = pool ∨ pool'.places = pool.places ++ c.spread) := by
  rcases intern_cases c pool with ⟨j, hlookup, hrun⟩ | ⟨-, hroom, hrun⟩ | ⟨-, -, hrun⟩
  · cases hrun.symm.trans hintern
    exact ⟨h, h.indexed c i hlookup, .inl rfl⟩
  · cases hrun.symm.trans hintern
    exact ⟨h.append hc (Nat.lt_succ_of_le hroom), getElem?_append_count h.count_lt c,
      .inr (places_append pool c)⟩
  · cases hrun.symm.trans hintern

/-- Interning a name extends the pool. -/
theorem intern_extends {c : Constant} (h : pool.WellFormed) (hc : c.Fits) (hname : c.isName = true)
    (hintern : intern c pool = .ok i pool') :
    pool.Extends pool' ∧ pool'.places[i.toNat]? = some c := by
  obtain ⟨hwf, hslot, rfl | hplaces⟩ := intern_spec h hc hintern
  · exact ⟨.refl h, hslot⟩
  · rw [Constant.spread_of_isName hname] at hplaces
    refine ⟨⟨hwf, [c], hplaces, ?_⟩, hslot⟩
    intro d hd
    rw [List.mem_singleton.1 hd]
    exact hname

/-- The index of a text resolves to it. -/
theorem internUtf8_spec {text : String} (h : pool.WellFormed)
    (hintern : internUtf8 text pool = .ok i pool') :
    pool.Extends pool' ∧ pool'.utf8 i = .ok text := by
  unfold internUtf8 at hintern
  split at hintern
  · exact absurd hintern throw_ne_ok
  · rename_i hlen
    have hfits : (Constant.utf8 (Text.ModifiedUtf8.encode text.toList)).Fits := by
      simp only [Constant.Fits, UInt16.size]
      omega
    obtain ⟨hext, hslot⟩ := intern_extends h hfits rfl hintern
    exact ⟨hext, utf8_eq_ok.2 ⟨_, hslot, Text.ModifiedUtf8.decode?_encode _⟩⟩

/-- The index of a pair of name and descriptor resolves to it. -/
theorem internNameAndType_spec {n d : String} (h : pool.WellFormed)
    (hintern : internNameAndType n d pool = .ok i pool') :
    pool.Extends pool' ∧ pool'.nameAndType i = .ok (n, d) := by
  unfold internNameAndType at hintern
  obtain ⟨name, pool₁, hn, hintern⟩ := bind_eq_ok.1 hintern
  obtain ⟨descriptor, pool₂, hd, hintern⟩ := bind_eq_ok.1 hintern
  obtain ⟨hext₁, hname⟩ := internUtf8_spec h hn
  obtain ⟨hext₂, hdescriptor⟩ := internUtf8_spec hext₁.wellFormed hd
  obtain ⟨hext₃, hslot⟩ :=
    intern_extends (c := .nameAndType name descriptor) hext₂.wellFormed trivial rfl hintern
  refine ⟨(hext₁.trans hext₂).trans hext₃, nameAndType_eq_ok.2 ⟨name, descriptor, hslot, ?_, ?_⟩⟩
  · exact (hext₂.trans hext₃).keepsNames.utf8 hname
  · exact hext₃.keepsNames.utf8 hdescriptor

/-! ## Redirecting an entry -/

theorem Indexed.set {entries : Array Constant} {lookup : Std.TreeMap Constant UInt16}
    (h : Indexed ⟨entries, lookup⟩) {old c : Constant}
    (hold : entries.toList[i.toNat]? = some old) :
    Indexed ⟨entries.setIfInBounds i.toNat c,
      (if lookup[old]? == some i then lookup.erase old else lookup).insertIfNew c i⟩ := by
  have hlt : i.toNat < entries.toList.length := (List.getElem?_eq_some_iff.1 hold).1
  intro d j hj
  simp only [places, Array.toList_setIfInBounds]
  generalize htable : (if lookup[old]? == some i then lookup.erase old else lookup) = table at hj
  -- an answer that the table gave before, and still gives, is at another index than `i`
  have hkept : table[d]? = some j → (entries.toList.set i.toNat c)[j.toNat]? = some d := by
    subst htable
    intro hj
    have hbefore : lookup[d]? = some j := by
      split at hj
      · rw [Std.TreeMap.getElem?_erase] at hj
        split at hj
        · cases hj
        · exact hj
      · exact hj
    have hslot : entries.toList[j.toNat]? = some d := h d j hbefore
    have hne : i.toNat ≠ j.toNat := by
      intro hij
      obtain rfl : i = j := UInt16.toNat_inj.1 hij
      obtain rfl : old = d := Option.some.inj (hold.symm.trans hslot)
      rw [if_pos (by simp [hbefore]), Std.TreeMap.getElem?_erase, if_pos (by simp)] at hj
      cases hj
    rw [List.getElem?_set_ne hne]
    exact hslot
  rw [Std.TreeMap.getElem?_insertIfNew] at hj
  split at hj
  · rename_i hd
    obtain rfl : c = d := Std.LawfulEqOrd.compare_eq_iff_eq.1 hd.1
    obtain rfl : i = j := Option.some.inj hj
    exact List.getElem?_set_self hlt
  · exact hkept hj

/-- All that redirecting an entry can do: the entry is usable and as wide as the constant, or
nothing happens. -/
theorem set_cases (i : UInt16) (c : Constant) (pool : ConstantPool) :
    (∃ old, pool.get i = .ok old ∧ old.slots = c.slots
        ∧ set i c pool = .ok () ⟨pool.entries.setIfInBounds i.toNat c,
          (if pool.lookup[old]? == some i then pool.lookup.erase old else pool.lookup).insertIfNew
            c i⟩)
      ∨ (¬ ∃ old, pool.get i = .ok old ∧ old.slots = c.slots)
        ∧ ∃ fault, set i c pool = .error fault pool := by
  cases hget : pool.get i with
  | error fault =>
    refine .inr ⟨?_, fault, by simp only [set, hget]⟩
    rintro ⟨_, hold, -⟩
    cases hold
  | ok old =>
    by_cases hslots : old.slots = c.slots
    · refine .inl ⟨old, rfl, hslots, ?_⟩
      simp only [set, hget, ne_eq, hslots, not_true_eq_false, if_false]
    · refine .inr ⟨?_, .slotWidth i, ?_⟩
      · rintro ⟨_, hold, hwidth⟩
        cases hold
        exact hslots hwidth
      · simp only [set, hget, ne_eq, hslots, not_false_eq_true, if_true]

/-- Redirecting an entry changes its slot and no other. -/
theorem set_spec {c : Constant} {u : Unit} (h : pool.WellFormed) (hc : c.Fits)
    (hset : set i c pool = .ok u pool') :
    pool'.WellFormed ∧ pool'.places = pool.places.set i.toNat c := by
  rcases set_cases i c pool with ⟨old, hget, hslots, hrun⟩ | ⟨-, fault, hrun⟩
  · cases hrun.symm.trans hset
    obtain ⟨hslot, hne⟩ := get_eq_ok.1 hget
    refine ⟨⟨?_, ?_, h.indexed.set hslot⟩, by simp [places]⟩
    · obtain ⟨rest, hrest, hspaced⟩ := h.layout
      rw [hrest] at hslot
      generalize i.toNat = k at hslot
      cases k with
      | zero => exact absurd (by simpa using hslot.symm) hne
      | succ k =>
        have hslot' : rest[k]? = some old := by simpa using hslot
        refine ⟨rest.set k c, ?_, hspaced.set hslot' hne hslots hc⟩
        simpa [places] using congrArg (List.set · (k + 1) c) hrest
    · simpa [count] using h.count_lt
  · cases hrun.symm.trans hset

end Jarwright.ClassFile.ConstantPool
