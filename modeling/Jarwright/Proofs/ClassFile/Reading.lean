import Jarwright.ClassFile.Reader

/-!
# Readers and the bytes they take

A reader succeeds on exactly the byte strings that start with the written form of what it gives.
Each lemma here says so for one reader, as an equivalence: from left to right it is the exactness
of the format, from right to left the round trip with any bytes behind.

* `bind_eq_ok` takes a sequence of steps apart, for readers and for edits of a pool;
* `Reader.u1_eq_ok` up to `Reader.u8_eq_ok` and `Reader.take_eq_ok` are the leaves;
* `Reader.times_eq_ok` and `Reader.counted_eq_ok` lift the equivalence of an item to lists of it.
-/

namespace Jarwright

/-! ## Numbers of fixed width -/

namespace Bytes

/-- Writing the number that a byte string spells gives the string back. -/
theorem bigEndian_ofBigEndian (width : Nat) : ∀ {bs : Bytes}, bs.length = width →
    bigEndian width (ofBigEndian bs) = bs := by
  induction width with
  | zero => intro bs h; rw [List.eq_nil_of_length_eq_zero h]; rfl
  | succ width ih =>
    intro bs h
    obtain ⟨front, last, rfl⟩ : ∃ front last, bs = front ++ [last] := by
      refine ⟨bs.dropLast, bs.getLast (List.ne_nil_of_length_eq_add_one h), ?_⟩
      exact (List.dropLast_concat_getLast _).symm
    have hfront : front.length = width := by simpa using h
    have hlast : last.toNat < 256 := last.toNat_lt
    have hdiv : (ofBigEndian front * 256 + last.toNat) / 256 = ofBigEndian front := by omega
    have hmod : UInt8.ofNat (ofBigEndian front * 256 + last.toNat) = last := by
      rw [← UInt8.toNat_inj, UInt8.toNat_ofNat']
      omega
    rw [ofBigEndian_append_singleton, bigEndian, hdiv, hmod, ih hfront]

theorem ofBigEndian_lt {width : Nat} {bs : Bytes} (h : bs.length = width) :
    ofBigEndian bs < Nat.pow 256 width := by
  have hmod := ofBigEndian_bigEndian width (ofBigEndian bs)
  rw [bigEndian_ofBigEndian _ h] at hmod
  rw [hmod]
  exact Nat.mod_lt _ (Nat.pow_pos (by decide))

theorem ofBigEndian_bigEndian_of_lt {width n : Nat} (h : n < Nat.pow 256 width) :
    ofBigEndian (bigEndian width n) = n := by
  rw [ofBigEndian_bigEndian, Nat.mod_eq_of_lt h]

/-- A number written on more bytes starts with what is left of it after the last of them. -/
theorem bigEndian_add (width more n : Nat) :
    bigEndian (width + more) n = bigEndian width (n / Nat.pow 256 more) ++ bigEndian more n := by
  induction more generalizing n with
  | zero => simp [bigEndian]
  | succ more ih =>
    have hpow : n / 256 / Nat.pow 256 more = n / Nat.pow 256 (more + 1) := by
      rw [Nat.div_div_eq_div_mul, Nat.mul_comm]
      rfl
    rw [← Nat.add_assoc, bigEndian, ih, hpow, bigEndian, List.append_assoc]

/-- A number on a known width can be told from what follows it. -/
theorem bigEndian_append_inj {width m n : Nat} (hm : m < Nat.pow 256 width)
    (hn : n < Nat.pow 256 width) {bs cs : Bytes} :
    bigEndian width m ++ bs = bigEndian width n ++ cs ↔ m = n ∧ bs = cs := by
  constructor
  · intro h
    obtain ⟨hnum, hrest⟩ := List.append_inj h (by simp)
    refine ⟨?_, hrest⟩
    rw [← ofBigEndian_bigEndian_of_lt hm, hnum, ofBigEndian_bigEndian_of_lt hn]
  · rintro ⟨rfl, rfl⟩
    rfl

end Bytes

namespace ClassFile

open Bytes

/-! ## Sequences of steps -/

section Steps

variable {ε σ α β : Type} {s s' : σ}

@[simp] theorem bind_eq_ok {x : EStateM ε σ α} {f : α → EStateM ε σ β} {b : β} :
    (x >>= f) s = .ok b s' ↔ ∃ a t, x s = .ok a t ∧ f a t = .ok b s' := by
  show EStateM.bind x f s = _ ↔ _
  unfold EStateM.bind
  cases x s with
  | ok a t => exact ⟨fun h => ⟨a, t, rfl, h⟩, by rintro ⟨_, _, ⟨rfl, rfl⟩, h⟩; exact h⟩
  | error e t => simp

@[simp] theorem pure_eq_ok {a b : α} :
    (pure a : EStateM ε σ α) s = .ok b s' ↔ a = b ∧ s = s' := by
  show EStateM.Result.ok a s = _ ↔ _
  simp

@[simp] theorem map_eq_ok {x : EStateM ε σ α} {f : α → β} {b : β} :
    (f <$> x) s = .ok b s' ↔ ∃ a, x s = .ok a s' ∧ f a = b := by
  rw [map_eq_pure_bind, bind_eq_ok]
  simp only [pure_eq_ok]
  constructor
  · rintro ⟨a, t, h, rfl, rfl⟩
    exact ⟨a, h, rfl⟩
  · rintro ⟨a, h, rfl⟩
    exact ⟨a, s', h, rfl, rfl⟩

@[simp] theorem throw_ne_ok {e : ε} {b : α} : (throw e : EStateM ε σ α) s ≠ .ok b s' := by
  intro h
  cases (h : EStateM.Result.error e s = _)

@[simp] theorem get_eq_ok {t : σ} : (get : EStateM ε σ σ) s = .ok t s' ↔ s = t ∧ s = s' := by
  show EStateM.Result.ok s s = _ ↔ _
  simp

@[simp] theorem except_bind_eq_ok {x : Except ε α} {f : α → Except ε β} {b : β} :
    x >>= f = .ok b ↔ ∃ a, x = .ok a ∧ f a = .ok b := by
  cases x with
  | ok a => simp [bind, Except.bind]
  | error e => simp [bind, Except.bind]

@[simp] theorem except_pure_eq_ok {a b : α} : (pure a : Except ε α) = .ok b ↔ a = b := by
  simp [pure, Except.pure]

@[simp] theorem except_map_eq_ok {x : Except ε α} {f : α → β} {b : β} :
    f <$> x = .ok b ↔ ∃ a, x = .ok a ∧ f a = b := by
  cases x with
  | ok a => simp [Functor.map, Except.map]
  | error e => simp [Functor.map, Except.map]

end Steps

namespace Reader

/-! ## Leaves -/

@[simp] theorem u1_eq_ok {bs rest : Bytes} {b : UInt8} : u1 bs = .ok b rest ↔ bs = b :: rest := by
  cases bs <;> simp [u1]

@[simp] theorem take_eq_ok {n : Nat} {bs front rest : Bytes} :
    take n bs = .ok front rest ↔ front.length = n ∧ bs = front ++ rest := by
  constructor
  · intro h
    unfold take at h
    split at h
    · rename_i hs
      cases h
      exact (eq_append_of_splitExact hs).symm
    · cases h
  · rintro ⟨rfl, rfl⟩
    simp only [take, splitExact_append]

@[simp] theorem u2_eq_ok {bs rest : Bytes} {n : UInt16} :
    u2 bs = .ok n rest ↔ bs = putU2 n ++ rest := by
  simp only [u2, bind_eq_ok, take_eq_ok, pure_eq_ok, putU2]
  constructor
  · rintro ⟨front, mid, ⟨hfront, rfl⟩, rfl, rfl⟩
    rw [UInt16.toNat_ofNat_of_lt' (ofBigEndian_lt hfront), bigEndian_ofBigEndian 2 hfront]
  · rintro rfl
    refine ⟨bigEndian 2 n.toNat, rest, ⟨length_bigEndian 2 _, rfl⟩, ?_, rfl⟩
    rw [ofBigEndian_bigEndian_of_lt n.toNat_lt, UInt16.ofNat_toNat]

@[simp] theorem u4_eq_ok {bs rest : Bytes} {n : UInt32} :
    u4 bs = .ok n rest ↔ bs = putU4 n ++ rest := by
  simp only [u4, bind_eq_ok, take_eq_ok, pure_eq_ok, putU4]
  constructor
  · rintro ⟨front, mid, ⟨hfront, rfl⟩, rfl, rfl⟩
    rw [UInt32.toNat_ofNat_of_lt' (ofBigEndian_lt hfront), bigEndian_ofBigEndian 4 hfront]
  · rintro rfl
    refine ⟨bigEndian 4 n.toNat, rest, ⟨length_bigEndian 4 _, rfl⟩, ?_, rfl⟩
    rw [ofBigEndian_bigEndian_of_lt n.toNat_lt, UInt32.ofNat_toNat]

/-- The two halves in which a number of eight bytes is read. -/
theorem putU8_eq_append (n : UInt64) :
    putU8 n = putU4 (UInt32.ofNat (n.toNat / UInt32.size)) ++ putU4 (UInt32.ofNat n.toNat) := by
  have hhigh : n.toNat / UInt32.size < UInt32.size := by
    have := n.toNat_lt
    simp only [UInt32.size]
    omega
  have hlow : (UInt32.ofNat n.toNat).toNat = ofBigEndian (bigEndian 4 n.toNat) := by
    rw [UInt32.toNat_ofNat', ofBigEndian_bigEndian]
  rw [putU8, putU4, putU4, UInt32.toNat_ofNat_of_lt' hhigh, hlow,
    bigEndian_ofBigEndian 4 (length_bigEndian 4 _)]
  exact bigEndian_add 4 4 n.toNat

@[simp] theorem u8_eq_ok {bs rest : Bytes} {n : UInt64} :
    u8 bs = .ok n rest ↔ bs = putU8 n ++ rest := by
  simp only [u8, bind_eq_ok, u4_eq_ok, pure_eq_ok, putU8_eq_append, List.append_assoc]
  constructor
  · rintro ⟨hi, _, rfl, lo, _, rfl, rfl, rfl⟩
    have hhi := hi.toNat_lt
    have hlo := lo.toNat_lt
    have hn : (UInt64.ofNat (hi.toNat * UInt32.size + lo.toNat)).toNat
        = hi.toNat * UInt32.size + lo.toNat :=
      UInt64.toNat_ofNat_of_lt' (by simp only [UInt32.size, UInt64.size]; omega)
    have hdiv : (hi.toNat * UInt32.size + lo.toNat) / UInt32.size = hi.toNat := by
      simp only [UInt32.size]
      omega
    have hmod : UInt32.ofNat (hi.toNat * UInt32.size + lo.toNat) = lo := by
      rw [← UInt32.toNat_inj, UInt32.toNat_ofNat']
      simp only [UInt32.size]
      omega
    rw [hn, hdiv, hmod, UInt32.ofNat_toNat]
  · rintro rfl
    refine ⟨_, _, rfl, _, _, rfl, ?_, rfl⟩
    have hn := n.toNat_lt
    rw [← UInt64.toNat_inj, UInt64.toNat_ofNat', UInt32.toNat_ofNat', UInt32.toNat_ofNat']
    simp only [UInt32.size]
    omega

/-! ## Numbers before other bytes -/

@[simp] theorem putU2_append_inj {m n : UInt16} {bs cs : Bytes} :
    putU2 m ++ bs = putU2 n ++ cs ↔ m = n ∧ bs = cs := by
  rw [putU2, putU2, bigEndian_append_inj m.toNat_lt n.toNat_lt, UInt16.toNat_inj]

@[simp] theorem putU4_append_inj {m n : UInt32} {bs cs : Bytes} :
    putU4 m ++ bs = putU4 n ++ cs ↔ m = n ∧ bs = cs := by
  rw [putU4, putU4, bigEndian_append_inj m.toNat_lt n.toNat_lt, UInt32.toNat_inj]

@[simp] theorem putU8_append_inj {m n : UInt64} {bs cs : Bytes} :
    putU8 m ++ bs = putU8 n ++ cs ↔ m = n ∧ bs = cs := by
  rw [putU8, putU8, bigEndian_append_inj m.toNat_lt n.toNat_lt, UInt64.toNat_inj]

/-! ## Steps that take nothing -/

@[simp] theorem expectEnd_eq_ok {bs rest : Bytes} {u : Unit} :
    expectEnd bs = .ok u rest ↔ bs = [] ∧ rest = [] := by
  cases bs <;> simp [expectEnd, eq_comm]

@[simp] theorem whole_eq_ok {α : Type} {e : Fault} {reader : Reader α} {bs rest : Bytes} {x : α} :
    whole e reader bs = .ok x rest ↔ reader bs = .ok x [] ∧ rest = [] := by
  simp only [whole, bind_eq_ok, get_eq_ok]
  constructor
  · rintro ⟨y, mid, hy, t, _, ⟨rfl, rfl⟩, h⟩
    cases mid with
    | nil =>
      obtain ⟨rfl, rfl⟩ := pure_eq_ok.1 h
      exact ⟨hy, rfl⟩
    | cons b mid => exact absurd h throw_ne_ok
  · rintro ⟨h, rfl⟩
    exact ⟨x, [], h, [], [], ⟨rfl, rfl⟩, pure_eq_ok.2 ⟨rfl, rfl⟩⟩

theorem eval_eq_ok {α : Type} {reader : Reader α} {bs : Bytes} {x : α} :
    eval reader bs = .ok x ↔ ∃ rest, reader bs = .ok x rest := by
  unfold eval
  cases reader bs <;> simp

/-! ## Lists -/

/-- A list that can be written behind the number of its elements, and whose elements can be
written. -/
def Counted {α : Type} (Fits : α → Prop) (xs : List α) : Prop :=
  xs.length < UInt16.size ∧ ∀ x ∈ xs, Fits x

section Times

variable {m : Type → Type} [Monad m] {α : Type}

theorem timesFrom_eq_map [LawfulMonad m] (item : m α) (n : Nat) (done : List α) :
    timesFrom item done n = (fun xs => done.reverse ++ xs) <$> times n item := by
  unfold times
  induction n generalizing done with
  | zero => simp [timesFrom]
  | succ n ih =>
    have hstep (x : α) : timesFrom item (x :: done) n
        = (fun xs => done.reverse ++ xs) <$> timesFrom item [x] n := by
      rw [ih (x :: done), ih [x], Functor.map_map]
      simp
    simp only [timesFrom, hstep, map_bind]

@[simp] theorem times_zero (item : m α) : times 0 item = pure [] := rfl

/-- Reading one more item is reading it before the others. -/
theorem times_succ [LawfulMonad m] (n : Nat) (item : m α) :
    times (n + 1) item = (do
      let x ← item
      let xs ← times n item
      return x :: xs) := by
  have hstep (x : α) : timesFrom item [x] n = (x :: ·) <$> times n item :=
    timesFrom_eq_map item n [x]
  simp only [times, timesFrom, hstep, map_eq_pure_bind]

end Times

/-- The equivalence of an item lifts to any number of them. -/
theorem times_eq_ok {α : Type} {item : Reader α} {encode : α → Bytes} {Fits : α → Prop}
    (h : ∀ {bs x rest}, item bs = .ok x rest ↔ Fits x ∧ bs = encode x ++ rest)
    {n : Nat} {bs rest : Bytes} {xs : List α} :
    times n item bs = .ok xs rest
      ↔ xs.length = n ∧ (∀ x ∈ xs, Fits x) ∧ bs = xs.flatMap encode ++ rest := by
  induction n generalizing bs rest xs with
  | zero =>
    rw [times_zero, pure_eq_ok, List.length_eq_zero_iff]
    constructor
    · rintro ⟨rfl, rfl⟩
      simp
    · rintro ⟨rfl, -, rfl⟩
      simp
  | succ n ih =>
    simp only [times_succ, bind_eq_ok, h, ih, pure_eq_ok]
    constructor
    · rintro ⟨x, _, ⟨hx, rfl⟩, xs, _, ⟨rfl, hxs, rfl⟩, rfl, rfl⟩
      refine ⟨rfl, ?_, by simp⟩
      rintro y (_ | ⟨_, hy⟩)
      · exact hx
      · exact hxs y hy
    · rintro ⟨hlen, hfit, rfl⟩
      obtain ⟨x, xs, rfl⟩ := List.exists_cons_of_length_eq_add_one hlen
      refine ⟨x, _, ⟨hfit x (List.mem_cons_self ..), by simp⟩, xs, rest, ⟨?_, ?_, rfl⟩, rfl, rfl⟩
      · simpa using hlen
      · exact fun y hy => hfit y (List.mem_cons_of_mem _ hy)

/-- The equivalence of an item lifts to lists behind the number of their items. -/
theorem counted_bind_eq_ok {α β : Type} {item : Reader α} {encode : α → Bytes} {Fits : α → Prop}
    (h : ∀ {bs x rest}, item bs = .ok x rest ↔ Fits x ∧ bs = encode x ++ rest)
    {next : List α → Reader β} {bs rest : Bytes} {y : β} :
    (do let count ← u2; let xs ← times count.toNat item; next xs) bs = .ok y rest
      ↔ ∃ xs mid, Counted Fits xs ∧ bs = putList encode xs ++ mid ∧ next xs mid = .ok y rest := by
  simp only [bind_eq_ok, u2_eq_ok, times_eq_ok h, putList, putU2]
  constructor
  · rintro ⟨count, _, rfl, xs, mid, ⟨hlen, hfit, rfl⟩, hnext⟩
    have hcount : xs.length < UInt16.size := hlen ▸ count.toNat_lt
    exact ⟨xs, mid, ⟨hcount, hfit⟩, by simp [hlen], hnext⟩
  · rintro ⟨xs, mid, ⟨hlen, hfit⟩, rfl, hnext⟩
    have hcount : (UInt16.ofNat xs.length).toNat = xs.length := UInt16.toNat_ofNat_of_lt' hlen
    refine ⟨UInt16.ofNat xs.length, xs.flatMap encode ++ mid, by simp [hcount], xs, mid, ?_, hnext⟩
    exact ⟨hcount.symm, hfit, rfl⟩

theorem counted_eq_ok {α : Type} {item : Reader α} {encode : α → Bytes} {Fits : α → Prop}
    (h : ∀ {bs x rest}, item bs = .ok x rest ↔ Fits x ∧ bs = encode x ++ rest)
    {bs rest : Bytes} {xs : List α} :
    (do let count ← u2; times count.toNat item) bs = .ok xs rest
      ↔ Counted Fits xs ∧ bs = putList encode xs ++ rest := by
  have hbind := @counted_bind_eq_ok _ _ item encode Fits h pure bs rest xs
  simp only [bind_pure] at hbind
  rw [hbind]
  simp only [pure_eq_ok]
  constructor
  · rintro ⟨_, _, hfit, hbs, rfl, rfl⟩
    exact ⟨hfit, hbs⟩
  · rintro ⟨hfit, hbs⟩
    exact ⟨xs, rest, hfit, hbs, rfl, rfl⟩

/-- Bytes behind their number on four bytes. -/
theorem block_bind_eq_ok {β : Type} {next : Bytes → Reader β} {bs rest : Bytes} {y : β} :
    (do let length ← u4; let block ← take length.toNat; next block) bs = .ok y rest
      ↔ ∃ block mid, block.length < UInt32.size
        ∧ bs = bigEndian 4 block.length ++ (block ++ mid) ∧ next block mid = .ok y rest := by
  simp only [bind_eq_ok, u4_eq_ok, take_eq_ok, putU4]
  constructor
  · rintro ⟨length, _, rfl, block, mid, ⟨hlen, rfl⟩, hnext⟩
    have hfit : block.length < UInt32.size := hlen ▸ length.toNat_lt
    exact ⟨block, mid, hfit, by rw [hlen], hnext⟩
  · rintro ⟨block, mid, hfit, rfl, hnext⟩
    have hlen : (UInt32.ofNat block.length).toNat = block.length := UInt32.toNat_ofNat_of_lt' hfit
    exact ⟨UInt32.ofNat block.length, block ++ mid, by rw [hlen], block, mid, ⟨hlen.symm, rfl⟩,
      hnext⟩

end Reader

end ClassFile

end Jarwright
