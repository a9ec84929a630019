import Mathlib.Data.List.Sigma
import Jarwright.Proofs.Renaming.Exchanges

/-!
# Renaming the slots of a pool

The entries of a pool are redirected one after the other, while names are appended behind them.

* `SlotRenamed ctx final c c'`: what a slot holds before and after, by the kind of its constant;
* `Redirected pool pool' i c'`: what one step does to a pool. It changes the slot `i` at most, and
  only appends names besides;
* `PoolRenamed ctx final`: every slot of the old pool is renamed, and names follow.

`renameConstant_spec` is the step and `renameConstants_spec` the run over distinct slots; the usable
entries of a well-formed pool are such a run, which is `poolRenamed_of_renameConstants`.
-/

namespace Jarwright.ClassFile.ConstantPool

/-! ## The usable entries -/

theorem WellFormed.of_mem_toList {pool : ConstantPool} (h : pool.WellFormed)
    {e : UInt16 × Constant} (he : e ∈ pool.toList) :
    pool.places[e.1.toNat]? = some e.2 ∧ e.2 ≠ .unusable := by
  obtain ⟨⟨c, j⟩, hmem, rfl⟩ := List.mem_map.1 he
  obtain ⟨hmem, hne⟩ := List.mem_filter.1 hmem
  have hslot : pool.places[j]? = some c := List.mem_zipIdx_iff_getElem?.1 hmem
  have hj : j < UInt16.size := Nat.lt_trans (List.getElem?_eq_some_iff.1 hslot).1 h.count_lt
  refine ⟨?_, by simpa using hne⟩
  rw [UInt16.toNat_ofNat_of_lt' hj]
  exact hslot

theorem WellFormed.mem_toList {pool : ConstantPool} (h : pool.WellFormed) {j : Nat} {c : Constant}
    (hslot : pool.places[j]? = some c) (hne : c ≠ .unusable) :
    ∃ e ∈ pool.toList, e.1.toNat = j := by
  have hj : j < UInt16.size := Nat.lt_trans (List.getElem?_eq_some_iff.1 hslot).1 h.count_lt
  refine ⟨(UInt16.ofNat j, c), List.mem_map.2 ⟨(c, j), ?_, rfl⟩, UInt16.toNat_ofNat_of_lt' hj⟩
  exact List.mem_filter.2 ⟨List.mem_zipIdx_iff_getElem?.2 hslot, by simpa using hne⟩

/-- The usable entries stand in distinct slots. -/
theorem WellFormed.nodup_toList {pool : ConstantPool} (h : pool.WellFormed) :
    (pool.toList.map fun e => e.1.toNat).Nodup := by
  have hsublist := (List.filter_sublist (p := fun e : Constant × Nat => e.1 ≠ .unusable)
    (l := pool.entries.toList.zipIdx)).map Prod.snd
  have hnodup := (List.nodup_zipIdx_map_snd pool.entries.toList).sublist hsublist
  have hmap : (pool.toList.map fun e => e.1.toNat)
      = (pool.entries.toList.zipIdx.filter fun e => e.1 ≠ .unusable).map Prod.snd := by
    rw [toList, List.map_map]
    refine List.map_congr_left fun e he => ?_
    have hslot := List.mem_zipIdx_iff_getElem?.1 (List.mem_filter.1 he).1
    have hj : e.2 < UInt16.size := Nat.lt_trans (List.getElem?_eq_some_iff.1 hslot).1 h.count_lt
    exact UInt16.toNat_ofNat_of_lt' hj
  rw [hmap]
  exact hnodup

end Jarwright.ClassFile.ConstantPool

namespace Jarwright.Renaming

open ClassFile ConstantPool

/-- The kinds of constants that a renaming may redirect. -/
def isRedirected : Constant → Bool
  | .classRef _ => true
  | .fieldRef _ _ => true
  | .methodRef _ _ => true
  | .interfaceMethodRef _ _ => true
  | .methodType _ => true
  | .dynamic _ _ => true
  | .invokeDynamic _ _ => true
  | _ => false

namespace Context

/-- A constant before and after a renaming. -/
inductive SlotRenamed (ctx : Context) (final : ConstantPool) : Constant → Constant → Prop where
  | classRef {n n' : UInt16} : ctx.TextRenamed final (ClassName.map ctx.resolver.type) n n' →
      SlotRenamed ctx final (.classRef n) (.classRef n')
  | fieldRef {o m m' : UInt16} : ctx.MemberRenamedAt final .field o m m' →
      SlotRenamed ctx final (.fieldRef o m) (.fieldRef o m')
  | methodRef {o m m' : UInt16} : ctx.MemberRenamedAt final .method o m m' →
      SlotRenamed ctx final (.methodRef o m) (.methodRef o m')
  | interfaceMethodRef {o m m' : UInt16} : ctx.MemberRenamedAt final .method o m m' →
      SlotRenamed ctx final (.interfaceMethodRef o m) (.interfaceMethodRef o m')
  | methodType {d d' : UInt16} : ctx.TextRenamed final ctx.resolver.descriptor d d' →
      SlotRenamed ctx final (.methodType d) (.methodType d')
  | dynamic {b m m' : UInt16} : ctx.PairRenamed final (fun name _ => name) m m' →
      SlotRenamed ctx final (.dynamic b m) (.dynamic b m')
  | invokeDynamic {b m m' : UInt16} : ctx.PairRenamed final (fun name _ => name) m m' →
      SlotRenamed ctx final (.invokeDynamic b m) (.invokeDynamic b m')
  | other {c : Constant} : isRedirected c = false → SlotRenamed ctx final c c

/-- Every slot of the old pool is renamed, and what stands behind them is names. -/
structure PoolRenamed (ctx : Context) (final : ConstantPool) : Prop where
  slots : ∀ (i : Nat) (c : Constant), ctx.oldPool.places[i]? = some c →
    ∃ c', final.places[i]? = some c' ∧ ctx.SlotRenamed final c c'
  added : ∃ front names, final.places = front ++ names ∧ front.length = ctx.oldPool.count
    ∧ ∀ c ∈ names, c.isName = true

end Context

/-! ## One step -/

/-- A step puts a constant into one slot and appends names. -/
structure Redirected (pool pool' : ConstantPool) (i : Nat) (c' : Constant) : Prop where
  wellFormed : pool'.WellFormed
  keeps : pool.KeepsNames pool'
  places : ∃ names, pool'.places = pool.places.set i c' ++ names ∧ ∀ c ∈ names, c.isName = true

namespace Redirected

variable {pool pool' : ConstantPool} {i : Nat} {c c' : Constant}

theorem getElem?_self (h : Redirected pool pool' i c') (hi : i < pool.places.length) :
    pool'.places[i]? = some c' := by
  obtain ⟨names, hplaces, -⟩ := h.places
  rw [hplaces, List.getElem?_append_left (by rwa [List.length_set])]
  exact List.getElem?_set_self hi

theorem getElem?_ne (h : Redirected pool pool' i c') {j : Nat} (hij : i ≠ j)
    (hslot : pool.places[j]? = some c) : pool'.places[j]? = some c := by
  obtain ⟨names, hplaces, -⟩ := h.places
  have hj : j < pool.places.length := (List.getElem?_eq_some_iff.1 hslot).1
  rw [hplaces, List.getElem?_append_left (by rwa [List.length_set]), List.getElem?_set_ne hij]
  exact hslot

/-- What the step appends is names. -/
theorem isName (h : Redirected pool pool' i c') {j : Nat} (hj : pool.count ≤ j)
    (hslot : pool'.places[j]? = some c) : c.isName = true := by
  obtain ⟨names, hplaces, hnames⟩ := h.places
  rw [hplaces, List.getElem?_append_right (by rwa [List.length_set])] at hslot
  exact hnames c (List.mem_of_getElem? hslot)

/-- Appending names leaves every slot as it is. -/
theorem of_extends (h : pool.Extends pool') (hslot : pool.places[i]? = some c) :
    Redirected pool pool' i c := by
  obtain ⟨names, hplaces, hnames⟩ := h.added
  refine ⟨h.wellFormed, h.keepsNames, names, ?_, hnames⟩
  obtain ⟨hi, rfl⟩ := List.getElem?_eq_some_iff.1 hslot
  rw [List.set_getElem_self, hplaces]

/-- Appending names and then redirecting a slot that holds no name. -/
theorem of_set {mid : ConstantPool} {index : UInt16} {u : Unit} (h : pool.Extends mid)
    (hslot : pool.places[index.toNat]? = some c) (hname : c.isName = false) (hfits : c'.Fits)
    (hset : set index c' mid = .ok u pool') :
    Redirected pool pool' index.toNat c' ∧ mid.KeepsNames pool' := by
  obtain ⟨hwf, hplaces⟩ := set_spec h.wellFormed hfits hset
  obtain ⟨names, hmid, hnames⟩ := h.added
  have hkeeps : mid.KeepsNames pool' := by
    intro j d hd hj
    rw [hplaces, List.getElem?_set_ne]
    · exact hj
    · rintro rfl
      obtain rfl : c = d := Option.some.inj ((h.getElem? hslot).symm.trans hj)
      rw [hname] at hd
      cases hd
  refine ⟨⟨hwf, h.keepsNames.trans hkeeps, names, ?_, hnames⟩, hkeeps⟩
  rw [hplaces, hmid, List.set_append_left _ _ (List.getElem?_eq_some_iff.1 hslot).1]

end Redirected

section Step

variable {final : ConstantPool} {pool pool' : ConstantPool} {index : UInt16} {u : Unit}

/-- Looking for something to redirect a slot to, and redirecting it if there is. -/
theorem redirect_spec (entry : UInt16 → Constant) {e : Edit (Option UInt16)} {old : UInt16}
    {p : Option UInt16 → Prop} (he : Yields final e p) (hfits : ∀ t, (entry t).Fits)
    (hname : (entry old).isName = false) (hwf : pool.WellFormed)
    (hslot : pool.places[index.toNat]? = some (entry old))
    (h : (do Context.redirect index entry (← e)) pool = .ok u pool') :
    ∃ o : Option UInt16, Redirected pool pool' index.toNat (entry (o.getD old))
      ∧ (pool'.KeepsNames final → p o) := by
  obtain ⟨o, mid, ho, hredirect⟩ := bind_eq_ok.1 h
  obtain ⟨hext, hp⟩ := he hwf ho
  cases o with
  | none =>
    obtain ⟨-, rfl⟩ := pure_eq_ok.1 hredirect
    exact ⟨none, .of_extends hext hslot, hp⟩
  | some t =>
    obtain ⟨hred, hkeeps⟩ := Redirected.of_set hext hslot hname (hfits t) hredirect
    exact ⟨some t, hred, fun hfinal => hp (hkeeps.trans hfinal)⟩

/-- Redirecting a slot that is known by one text to the image of this text. -/
theorem renameText_spec (entry : UInt16 → Constant) {ctx : Context}
    (hkeep : ctx.oldPool.KeepsNames final) {f : String → Except Fault String} {i : UInt16}
    (hfits : ∀ t, (entry t).Fits) (hname : (entry i).isName = false) (hwf : pool.WellFormed)
    (hslot : pool.places[index.toNat]? = some (entry i))
    (h : (do
      let old ← lookUp (ctx.oldPool.utf8 i)
      let new ← lookUp (f old)
      if new = old then return ()
      else ConstantPool.set index (entry (← ConstantPool.internUtf8 new)) : Edit Unit) pool
        = .ok u pool') :
    ∃ i', Redirected pool pool' index.toNat (entry i')
      ∧ (pool'.KeepsNames final → ctx.TextRenamed final f i i') := by
  obtain ⟨old, mid, hold, h⟩ := bind_eq_ok.1 h
  obtain ⟨hext₁, hp₁⟩ := (Yields.lookUp _ : Yields mid _ _) hwf hold
  obtain ⟨new, mid', hnew, h⟩ := bind_eq_ok.1 h
  obtain ⟨hext₂, hp₂⟩ := (Yields.lookUp _ : Yields mid' _ _) hext₁.wellFormed hnew
  have hold := hp₁ (.refl mid)
  have hnew := hp₂ (.refl mid')
  split at h
  · rename_i heq
    obtain ⟨-, rfl⟩ := pure_eq_ok.1 h
    refine ⟨i, .of_extends (hext₁.trans hext₂) hslot, fun _ => ⟨old, new, hnew, hold, ?_, ?_⟩⟩
    · rw [heq]
      exact hkeep.utf8 hold
    · exact fun _ => rfl
  · rename_i hne
    obtain ⟨i', last, hi', hset⟩ := bind_eq_ok.1 h
    obtain ⟨hext₃, hi'⟩ := internUtf8_spec hext₂.wellFormed hi'
    obtain ⟨hred, hkeeps⟩ := Redirected.of_set ((hext₁.trans hext₂).trans hext₃) hslot hname
      (hfits i') hset
    refine ⟨i', hred, fun hfinal => ⟨old, new, hnew, hold, ?_, ?_⟩⟩
    · exact (hkeeps.trans hfinal).utf8 hi'
    · exact fun heq => absurd heq hne

/-- What renaming one entry does to the pool. -/
theorem Context.renameConstant_spec {ctx : Context} (hkeep : ctx.oldPool.KeepsNames final)
    {c : Constant} (hwf : pool.WellFormed) (hslot : pool.places[index.toNat]? = some c)
    (h : ctx.renameConstant index c pool = .ok u pool') :
    ∃ c', Redirected pool pool' index.toNat c'
      ∧ (pool'.KeepsNames final → ctx.SlotRenamed final c c') := by
  cases c with
  | classRef n =>
    obtain ⟨n', hred, hn⟩ :=
      renameText_spec .classRef hkeep (fun _ => trivial) rfl hwf hslot h
    exact ⟨_, hred, fun hfinal => .classRef (hn hfinal)⟩
  | methodType d =>
    obtain ⟨d', hred, hd⟩ :=
      renameText_spec .methodType hkeep (fun _ => trivial) rfl hwf hslot h
    exact ⟨_, hred, fun hfinal => .methodType (hd hfinal)⟩
  | fieldRef o m =>
    obtain ⟨t, hred, ht⟩ := redirect_spec (.fieldRef o) (yields_memberRef hkeep _ o m)
      (fun _ => trivial) rfl hwf hslot h
    exact ⟨_, hred, fun hfinal => .fieldRef (ht hfinal)⟩
  | methodRef o m =>
    obtain ⟨t, hred, ht⟩ := redirect_spec (.methodRef o) (yields_memberRef hkeep _ o m)
      (fun _ => trivial) rfl hwf hslot h
    exact ⟨_, hred, fun hfinal => .methodRef (ht hfinal)⟩
  | interfaceMethodRef o m =>
    obtain ⟨t, hred, ht⟩ := redirect_spec (.interfaceMethodRef o) (yields_memberRef hkeep _ o m)
      (fun _ => trivial) rfl hwf hslot h
    exact ⟨_, hred, fun hfinal => .interfaceMethodRef (ht hfinal)⟩
  | dynamic b m =>
    obtain ⟨t, hred, ht⟩ := redirect_spec (.dynamic b) (yields_dynamicRef hkeep m)
      (fun _ => trivial) rfl hwf hslot h
    exact ⟨_, hred, fun hfinal => .dynamic (ht hfinal)⟩
  | invokeDynamic b m =>
    obtain ⟨t, hred, ht⟩ := redirect_spec (.invokeDynamic b) (yields_dynamicRef hkeep m)
      (fun _ => trivial) rfl hwf hslot h
    exact ⟨_, hred, fun hfinal => .invokeDynamic (ht hfinal)⟩
  | _ =>
    obtain ⟨-, rfl⟩ := pure_eq_ok.1 h
    exact ⟨_, .of_extends (.refl hwf) hslot, fun _ => .other rfl⟩

end Step

/-! ## All entries -/

/-- Renaming the entries in distinct slots rewrites these slots and no others. -/
theorem Context.renameConstants_spec {ctx : Context} {final : ConstantPool}
    (hkeep : ctx.oldPool.KeepsNames final) {todo : List (UInt16 × Constant)}
    {pool pool' : ConstantPool} {u : Unit} (hwf : pool.WellFormed)
    (hslots : ∀ e ∈ todo, pool.places[e.1.toNat]? = some e.2)
    (hnodup : (todo.map fun e => e.1.toNat).Nodup)
    (h : ctx.renameConstants todo pool = .ok u pool') :
    pool'.WellFormed ∧ pool.KeepsNames pool'
      ∧ (∀ (j : Nat) (c : Constant), pool.count ≤ j → pool'.places[j]? = some c → c.isName = true)
      ∧ ∀ (j : Nat) (c : Constant), pool.places[j]? = some c →
        ∃ c', pool'.places[j]? = some c' ∧ ((∀ e ∈ todo, e.1.toNat ≠ j) → c' = c)
          ∧ ((∃ e ∈ todo, e.1.toNat = j) → pool'.KeepsNames final →
            ctx.SlotRenamed final c c') := by
  -- a step writes into its own slot only, so the slots to come still hold what they held
  induction todo generalizing pool with
  | nil =>
    obtain ⟨-, rfl⟩ := pure_eq_ok.1 h
    refine ⟨hwf, .refl pool, fun j c hj hc => ?_, fun j c hj => ?_⟩
    · exact absurd (List.getElem?_eq_some_iff.1 hc).1 (Nat.not_lt.2 hj)
    · exact ⟨c, hj, fun _ => rfl, by rintro ⟨_, he, -⟩; cases he⟩
  | cons e rest ih =>
    obtain ⟨index, old⟩ := e
    obtain ⟨u', mid, hstep, hrest⟩ := bind_eq_ok.1 h
    have hslot : pool.places[index.toNat]? = some old := hslots _ (List.mem_cons_self ..)
    obtain ⟨new, hred, hnew⟩ := ctx.renameConstant_spec hkeep hwf hslot hstep
    rw [List.map_cons, List.nodup_cons] at hnodup
    have hne : ∀ e ∈ rest, index.toNat ≠ e.1.toNat := fun e he heq =>
      hnodup.1 (List.mem_map.2 ⟨e, he, heq.symm⟩)
    have hmid : ∀ e ∈ rest, mid.places[e.1.toNat]? = some e.2 := fun e he =>
      hred.getElem?_ne (hne e he) (hslots e (List.mem_cons_of_mem _ he))
    obtain ⟨hwf', hkeeps, hadded, hall⟩ := ih hred.wellFormed hmid hnodup.2 hrest
    refine ⟨hwf', hred.keeps.trans hkeeps, fun j c hj hc => ?_, fun j c hj => ?_⟩
    · -- what the step appended is a name, and the others keep it
      by_cases hlt : j < mid.count
      · obtain ⟨d, hd⟩ : ∃ d, mid.places[j]? = some d := ⟨_, List.getElem?_eq_getElem hlt⟩
        have hname := hred.isName hj hd
        obtain rfl : d = c := Option.some.inj ((hkeeps j d hname hd).symm.trans hc)
        exact hname
      · exact hadded j c (Nat.le_of_not_lt hlt) hc
    · by_cases hij : index.toNat = j
      · subst hij
        obtain rfl : old = c := Option.some.inj (hslot.symm.trans hj)
        have hself := hred.getElem?_self (List.getElem?_eq_some_iff.1 hj).1
        obtain ⟨c', hc', hstay, -⟩ := hall _ new hself
        obtain rfl : c' = new := hstay fun e he => (hne e he).symm
        refine ⟨c', hc', fun hnot => absurd rfl (hnot _ (List.mem_cons_self ..)), ?_⟩
        exact fun _ hfinal => hnew (hkeeps.trans hfinal)
      · obtain ⟨c', hc', hstay, hdone⟩ := hall j c (hred.getElem?_ne hij hj)
        refine ⟨c', hc', fun hnot => hstay fun e he => hnot e (List.mem_cons_of_mem _ he), ?_⟩
        rintro ⟨e, he, rfl⟩
        rcases List.mem_cons.1 he with rfl | he
        · exact absurd rfl hij
        · exact hdone ⟨e, he, rfl⟩

/-- Renaming the entries of a well-formed pool renames it, and it stays so when names are added. -/
theorem Context.poolRenamed_of_renameConstants {ctx : Context} {pool : ConstantPool} {u : Unit}
    (hwf : ctx.oldPool.WellFormed)
    (h : ctx.renameConstants ctx.oldPool.toList ctx.oldPool = .ok u pool) :
    pool.WellFormed ∧ ctx.oldPool.KeepsNames pool
      ∧ ∀ {final : ConstantPool}, pool.Extends final → ctx.PoolRenamed final := by
  have hslots : ∀ e ∈ ctx.oldPool.toList, ctx.oldPool.places[e.1.toNat]? = some e.2 :=
    fun e he => (hwf.of_mem_toList he).1
  obtain ⟨hwf', hkeeps, -, -⟩ :=
    ctx.renameConstants_spec (.refl ctx.oldPool) hwf hslots hwf.nodup_toList h
  refine ⟨hwf', hkeeps, fun {final} hext => ?_⟩
  obtain ⟨-, -, hadded, hall⟩ := ctx.renameConstants_spec (hkeeps.trans hext.keepsNames) hwf hslots
    hwf.nodup_toList h
  constructor
  · intro i c hi
    obtain ⟨c', hc', hstay, hdone⟩ := hall i c hi
    refine ⟨c', hext.getElem? hc', ?_⟩
    by_cases hne : c = .unusable
    · subst hne
      have hnot : ∀ e ∈ ctx.oldPool.toList, e.1.toNat ≠ i := by
        rintro e he rfl
        obtain ⟨hslot, hne⟩ := hwf.of_mem_toList he
        exact hne (Option.some.inj (hslot.symm.trans hi))
      rw [hstay hnot]
      exact .other rfl
    · exact hdone (hwf.mem_toList hi hne) hext.keepsNames
  · obtain ⟨names, hfinal, hnames⟩ := hext.added
    have hle : ctx.oldPool.count ≤ pool.places.length := by
      by_contra hlt
      have hlt : pool.places.length < ctx.oldPool.places.length := Nat.lt_of_not_le hlt
      obtain ⟨c', hc', -⟩ := hall _ _ (List.getElem?_eq_getElem hlt)
      exact Nat.lt_irrefl _ (List.getElem?_eq_some_iff.1 hc').1
    refine ⟨pool.places.take ctx.oldPool.count, pool.places.drop ctx.oldPool.count ++ names, ?_,
      List.length_take_of_le hle, fun c hc => ?_⟩
    · rw [hfinal, ← List.append_assoc, List.take_append_drop]
    · rcases List.mem_append.1 hc with hc | hc
      · obtain ⟨j, hj⟩ := List.mem_iff_getElem?.1 hc
        rw [List.getElem?_drop] at hj
        exact hadded _ c (Nat.le_add_right ..) hj
      · exact hnames c hc

end Jarwright.Renaming
