import Mathlib.Data.List.Forall2
import Jarwright.Proofs.ClassFile.Interning
import Jarwright.Renaming.Class

/-!
# What edits yield

An edit hands on indices into a pool that is still changing, and they matter only for the pool that
is written in the end. So results are described with that last pool, `final`, fixed from the start:

* `Yields final e post`: an edit that succeeds extends its pool, and its result satisfies `post` if
  `final` keeps the names of the pool it leaves;
* `Takes final step post`: the same for a step that also takes bytes off a payload, and `post`
  relates the bytes taken to the result.

As `final` does not change on the way, no property has to be carried from pool to pool. The rules
`bind`, `pure`, `mono` build the post-condition of a sequence along its text, and `times` that of a
counted list.
-/

namespace Jarwright.Renaming

open ClassFile ConstantPool

/-- An edit that succeeds extends its pool, and its result satisfies `post` if `final` keeps the
names of the pool it leaves. -/
def Yields {α : Type} (final : ConstantPool) (e : Edit α) (post : α → Prop) : Prop :=
  ∀ ⦃pool x pool'⦄, pool.WellFormed → e pool = .ok x pool' →
    pool.Extends pool' ∧ (pool'.KeepsNames final → post x)

/-- A step that succeeds takes bytes off the front of a payload and extends its pool; these bytes
and its result satisfy `post` if `final` keeps the names of the pool it leaves. -/
def Takes {α : Type} (final : ConstantPool) (step : Payload α) (post : Bytes → α → Prop) : Prop :=
  ∀ ⦃bs pool x rest pool'⦄, pool.WellFormed → step bs pool = .ok (x, rest) pool' →
    pool.Extends pool' ∧ ∃ taken, bs = taken ++ rest ∧ (pool'.KeepsNames final → post taken x)

variable {α β : Type} {final : ConstantPool}

/-! ## Edits -/

namespace Yields

theorem mono {e : Edit α} {p q : α → Prop} (h : Yields final e p) (hpq : ∀ x, p x → q x) :
    Yields final e q := by
  intro pool x pool' hwf he
  obtain ⟨hext, hp⟩ := h hwf he
  exact ⟨hext, fun hfinal => hpq x (hp hfinal)⟩

theorem pure (x : α) : Yields final (pure x) (· = x) := by
  intro pool y pool' hwf he
  obtain ⟨rfl, rfl⟩ := pure_eq_ok.1 he
  exact ⟨.refl hwf, fun _ => rfl⟩

theorem bind {e : Edit α} {f : α → Edit β} {p : α → Prop} {q : α → β → Prop}
    (he : Yields final e p) (hf : ∀ x, Yields final (f x) (q x)) :
    Yields final (e >>= f) (fun y => ∃ x, p x ∧ q x y) := by
  intro pool y pool' hwf h
  obtain ⟨x, mid, hx, hy⟩ := bind_eq_ok.1 h
  obtain ⟨hext₁, hp⟩ := he hwf hx
  obtain ⟨hext₂, hq⟩ := hf x hext₁.wellFormed hy
  exact ⟨hext₁.trans hext₂, fun hfinal => ⟨x, hp (hext₂.keepsNames.trans hfinal), hq hfinal⟩⟩

theorem throw (fault : Fault) (p : α → Prop) : Yields final (throw fault) p :=
  fun _ _ _ _ h => absurd h throw_ne_ok

theorem lookUp (r : Except Fault α) : Yields final (lookUp r) (fun x => r = .ok x) := by
  intro pool x pool' hwf he
  unfold Renaming.lookUp at he
  split at he
  · cases he
    exact ⟨.refl hwf, fun _ => rfl⟩
  · cases he

theorem internUtf8 (text : String) :
    Yields final (ConstantPool.internUtf8 text) (fun i => final.utf8 i = .ok text) := by
  intro pool i pool' hwf he
  obtain ⟨hext, hi⟩ := internUtf8_spec hwf he
  exact ⟨hext, fun hfinal => hfinal.utf8 hi⟩

theorem internNameAndType (n d : String) :
    Yields final (ConstantPool.internNameAndType n d)
      (fun i => final.nameAndType i = .ok (n, d)) := by
  intro pool i pool' hwf he
  obtain ⟨hext, hi⟩ := internNameAndType_spec hwf he
  exact ⟨hext, fun hfinal => hfinal.nameAndType hi⟩

end Yields

/-! ## Steps that take bytes -/

namespace Takes

theorem mono {step : Payload α} {p q : Bytes → α → Prop} (h : Takes final step p)
    (hpq : ∀ taken x, p taken x → q taken x) : Takes final step q := by
  intro bs pool x rest pool' hwf hs
  obtain ⟨hext, taken, rfl, hp⟩ := h hwf hs
  exact ⟨hext, taken, rfl, fun hfinal => hpq taken x (hp hfinal)⟩

theorem pure (x : α) : Takes final (pure x) (fun taken y => taken = [] ∧ y = x) := by
  intro bs pool y rest pool' hwf hs
  obtain ⟨h, rfl⟩ := pure_eq_ok.1 (hs : (Pure.pure (x, bs) : Edit (α × Bytes)) pool = _)
  cases h
  exact ⟨.refl hwf, [], rfl, fun _ => ⟨rfl, rfl⟩⟩

theorem bind {step : Payload α} {f : α → Payload β} {p : Bytes → α → Prop}
    {q : α → Bytes → β → Prop} (hs : Takes final step p) (hf : ∀ x, Takes final (f x) (q x)) :
    Takes final (step >>= f)
      (fun taken y => ∃ front x back, taken = front ++ back ∧ p front x ∧ q x back y) := by
  intro bs pool y rest pool' hwf h
  obtain ⟨⟨x, more⟩, mid, hx, hy⟩ :=
    bind_eq_ok.1 (h : (step bs >>= fun r => f r.1 r.2) pool = .ok (y, rest) pool')
  obtain ⟨hext₁, front, rfl, hp⟩ := hs hwf hx
  obtain ⟨hext₂, back, rfl, hq⟩ := hf x hext₁.wellFormed hy
  refine ⟨hext₁.trans hext₂, front ++ back, (List.append_assoc ..).symm, fun hfinal => ?_⟩
  exact ⟨front, x, back, rfl, hp (hext₂.keepsNames.trans hfinal), hq hfinal⟩

theorem assoc {γ : Type} {step : Payload α} {f : α → Payload β} {g : β → Payload γ}
    {p : Bytes → γ → Prop} (h : Takes final (step >>= f >>= g) p) :
    Takes final (step >>= fun x => f x >>= g) p := by
  rwa [bind_assoc] at h

theorem read {reader : Reader α} {p : Bytes → α → Prop}
    (h : ∀ ⦃bs x rest⦄, reader bs = .ok x rest → ∃ taken, bs = taken ++ rest ∧ p taken x) :
    Takes final (Payload.read reader) p := by
  intro bs pool x rest pool' hwf hs
  unfold Payload.read at hs
  split at hs
  · rename_i hread
    cases hs
    obtain ⟨taken, rfl, hp⟩ := h hread
    exact ⟨.refl hwf, taken, rfl, fun _ => hp⟩
  · cases hs

theorem edit {e : Edit α} {p : α → Prop} (he : Yields final e p) :
    Takes final (Payload.edit e) (fun taken x => taken = [] ∧ p x) := by
  intro bs pool x rest pool' hwf hs
  unfold Payload.edit at hs
  split at hs
  · rename_i hread
    cases hs
    obtain ⟨hext, hp⟩ := he hwf hread
    exact ⟨hext, [], rfl, fun hfinal => ⟨rfl, hp hfinal⟩⟩
  · cases hs

/-! The steps from which the others are made, each in front of a rest. -/

theorem u1_bind {f : UInt8 → Payload β} {q : UInt8 → Bytes → β → Prop}
    (hf : ∀ b, Takes final (f b) (q b)) :
    Takes final (Payload.read Reader.u1 >>= f)
      (fun taken y => ∃ b back, taken = b :: back ∧ q b back y) := by
  have hread : Takes final (Payload.read Reader.u1) (fun taken b => taken = [b]) :=
    read fun _ _ _ h => ⟨_, Reader.u1_eq_ok.1 h, rfl⟩
  refine (hread.bind hf).mono ?_
  rintro taken y ⟨_, b, back, rfl, rfl, hq⟩
  exact ⟨b, back, rfl, hq⟩

theorem u2_bind {f : UInt16 → Payload β} {q : UInt16 → Bytes → β → Prop}
    (hf : ∀ n, Takes final (f n) (q n)) :
    Takes final (Payload.read Reader.u2 >>= f)
      (fun taken y => ∃ n back, taken = putU2 n ++ back ∧ q n back y) := by
  have hread : Takes final (Payload.read Reader.u2) (fun taken n => taken = putU2 n) :=
    read fun _ _ _ h => ⟨_, Reader.u2_eq_ok.1 h, rfl⟩
  refine (hread.bind hf).mono ?_
  rintro taken y ⟨_, n, back, rfl, rfl, hq⟩
  exact ⟨n, back, rfl, hq⟩

theorem edit_bind {e : Edit α} {f : α → Payload β} {p : α → Prop} {q : α → Bytes → β → Prop}
    (he : Yields final e p) (hf : ∀ x, Takes final (f x) (q x)) :
    Takes final (Payload.edit e >>= f) (fun taken y => ∃ x, p x ∧ q x taken y) := by
  refine ((edit he).bind hf).mono ?_
  rintro taken y ⟨_, x, back, rfl, ⟨rfl, hp⟩, hq⟩
  exact ⟨x, hp, hq⟩

theorem bind_pure {step : Payload α} {p : Bytes → α → Prop} (hs : Takes final step p)
    (f : α → β) :
    Takes final (step >>= fun x => Pure.pure (f x))
      (fun taken y => ∃ x, p taken x ∧ y = f x) := by
  refine (hs.bind fun x => pure (f x)).mono ?_
  rintro taken y ⟨front, x, _, rfl, hp, rfl, rfl⟩
  exact ⟨x, by rwa [List.append_nil], rfl⟩

/-- A step that is run some number of times takes what it takes each time, one after the other. -/
theorem times {item : Payload α} {p : Bytes → α → Prop} (h : Takes final item p) (n : Nat) :
    Takes final (Reader.times n item)
      (fun taken xs => xs.length = n
        ∧ ∃ parts, taken = parts.flatten ∧ List.Forall₂ p parts xs) := by
  induction n with
  | zero =>
    refine (pure []).mono ?_
    rintro taken xs ⟨rfl, rfl⟩
    exact ⟨rfl, [], rfl, .nil⟩
  | succ n ih =>
    rw [Reader.times_succ]
    refine (h.bind fun x => ih.bind fun xs => pure (x :: xs)).mono ?_
    rintro taken ys ⟨part, x, _, rfl, hx, _, xs, _, rfl, ⟨hlen, parts, rfl, hxs⟩, rfl, rfl⟩
    exact ⟨by simp [hlen], part :: parts, by simp, .cons hx hxs⟩

/-- The parts that were taken one after the other are the written forms of a list. -/
theorem exists_flatMap {encode : α → Bytes} {R : α → β → Prop} {parts : List Bytes} {ys : List β}
    (h : List.Forall₂ (fun part y => ∃ x, part = encode x ∧ R x y) parts ys) :
    ∃ xs, parts.flatten = xs.flatMap encode ∧ List.Forall₂ R xs ys := by
  induction h with
  | nil => exact ⟨[], rfl, .nil⟩
  | cons hpart _ ih =>
    obtain ⟨x, rfl, hx⟩ := hpart
    obtain ⟨xs, hflatten, hxs⟩ := ih
    exact ⟨x :: xs, by rw [List.flatten_cons, hflatten, List.flatMap_cons], .cons hx hxs⟩

/-- A list behind the number of its items is taken as a list of what the items are taken as. -/
theorem counted {item : Payload β} {encode : α → Bytes} {R : α → β → Prop}
    (h : Takes final item (fun part y => ∃ x, part = encode x ∧ R x y)) :
    Takes final
      (do let count ← Payload.read Reader.u2; Reader.times count.toNat item)
      (fun taken ys => ∃ xs, taken = putList encode xs ∧ xs.length < UInt16.size
        ∧ List.Forall₂ R xs ys) := by
  refine (u2_bind fun count => times h count.toNat).mono ?_
  rintro taken ys ⟨count, _, rfl, hlen, parts, rfl, hparts⟩
  obtain ⟨xs, hflatten, hxs⟩ := exists_flatMap hparts
  have hcount : xs.length = count.toNat := hxs.length_eq.trans hlen
  refine ⟨xs, ?_, hcount ▸ count.toNat_lt, hxs⟩
  rw [putList, hflatten, hcount, putU2]

end Takes

/-- A payload that is taken apart whole is what its parts were. -/
theorem Yields.run {layout : Layout} {step : Payload α} {p : Bytes → α → Prop}
    (h : Takes final step p) (payload : Bytes) :
    Yields final (Payload.run layout step payload) (p payload) := by
  intro pool x pool' hwf he
  unfold Payload.run at he
  split at he
  · rename_i hstep
    cases he
    obtain ⟨hext, taken, htaken, hp⟩ := h hwf hstep
    rw [List.append_nil] at htaken
    exact ⟨hext, htaken ▸ hp⟩
  · cases he
  · cases he

end Jarwright.Renaming
