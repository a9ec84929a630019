import Mathlib.Data.List.Basic
import Jarwright.Proofs.ClassFile.Reading
import Jarwright.Renaming.ElementValue

/-!
# Which use of a type is annotated

An annotation on the use of a type says in two steps which use is meant: a target in a declaration
or in a body, and from there a path into the type. `IsTarget` lists the forms of a target by their
kinds, and `IsPath` gives the form of a path, both after JVMS 4.7.20.

`readTarget_eq_ok` and `readPath_eq_ok` say that these are read and nothing else: the size that is
looked up for a kind of target is the size of its forms.
-/

namespace Jarwright.Renaming

open ClassFile

/-- A local variable, and the range of the body in which it has its value. -/
structure LocalRange where
  start : UInt16
  length : UInt16
  index : UInt16

/-- The three numbers of a range. -/
def LocalRange.encode (r : LocalRange) : Bytes := putU2 r.start ++ putU2 r.length ++ putU2 r.index

/-- The forms of a target of the kind `t`. -/
inductive IsTarget (t : UInt8) : Bytes → Prop where
  /-- A type parameter of a class or of a method. -/
  | typeParameter (i : UInt8) : t = 0x00 ∨ t = 0x01 → IsTarget t [i]
  /-- A type that a class extends or implements. -/
  | supertype (i : UInt16) : t = 0x10 → IsTarget t (putU2 i)
  /-- A bound of a type parameter. -/
  | bound (parameter bound : UInt8) : t = 0x11 ∨ t = 0x12 → IsTarget t [parameter, bound]
  /-- The type of a field, of a result or of a receiver. -/
  | declared : t = 0x13 ∨ t = 0x14 ∨ t = 0x15 → IsTarget t []
  /-- The type of a parameter. -/
  | parameter (i : UInt8) : t = 0x16 → IsTarget t [i]
  /-- A type that a method throws. -/
  | thrown (i : UInt16) : t = 0x17 → IsTarget t (putU2 i)
  /-- The type of a local variable, in all its ranges. -/
  | localVariable (ranges : List LocalRange) : t = 0x40 ∨ t = 0x41 →
      ranges.length < UInt16.size → IsTarget t (putList LocalRange.encode ranges)
  /-- The type of a handled exception. -/
  | handled (i : UInt16) : t = 0x42 → IsTarget t (putU2 i)
  /-- The type of an instruction. -/
  | instruction (offset : UInt16) : 0x43 ≤ t → t ≤ 0x46 → IsTarget t (putU2 offset)
  /-- A type argument of an instruction. -/
  | typeArgument (offset : UInt16) (i : UInt8) : 0x47 ≤ t → t ≤ 0x4b →
      IsTarget t (putU2 offset ++ [i])

/-- The form of a path: its steps, of a kind and an index each, behind their number. -/
def IsPath (path : Bytes) : Prop :=
  ∃ steps : List (UInt8 × UInt8), steps.length < UInt8.size
    ∧ path = UInt8.ofNat steps.length :: steps.flatMap fun step => [step.1, step.2]

/-! ## Bytes by their number -/

theorem exists_putU2_append {bs : Bytes} (h : 2 ≤ bs.length) : ∃ n rest, bs = putU2 n ++ rest := by
  have hfront : (bs.take 2).length = 2 := by rw [List.length_take]; omega
  refine ⟨UInt16.ofNat (Bytes.ofBigEndian (bs.take 2)), bs.drop 2, ?_⟩
  rw [putU2, UInt16.toNat_ofNat_of_lt' (Bytes.ofBigEndian_lt hfront),
    Bytes.bigEndian_ofBigEndian 2 hfront, List.take_append_drop]

theorem exists_putU2 {bs : Bytes} (h : bs.length = 2) : ∃ n, bs = putU2 n := by
  obtain ⟨n, rest, rfl⟩ := exists_putU2_append (Nat.le_of_eq h.symm)
  rw [List.length_append, putU2, Bytes.length_bigEndian] at h
  obtain rfl : rest = [] := List.eq_nil_of_length_eq_zero (by omega)
  exact ⟨n, List.append_nil _⟩

theorem length_encodeRanges (ranges : List LocalRange) :
    (ranges.flatMap LocalRange.encode).length = ranges.length * 6 := by
  induction ranges with
  | nil => rfl
  | cons r ranges ih =>
    simp only [List.flatMap_cons, List.length_append, LocalRange.encode, putU2,
      Bytes.length_bigEndian, ih, List.length_cons]
    omega

theorem length_encodeSteps (steps : List (UInt8 × UInt8)) :
    (steps.flatMap fun step => [step.1, step.2]).length = steps.length * 2 := by
  induction steps with
  | nil => rfl
  | cons step steps ih =>
    simp only [List.flatMap_cons, List.length_append, List.length_cons, List.length_nil, ih]
    omega

/-- Six bytes for each range are ranges. -/
theorem exists_ranges {n : Nat} {bs : Bytes} (h : bs.length = n * 6) :
    ∃ ranges : List LocalRange, ranges.length = n ∧ bs = ranges.flatMap LocalRange.encode := by
  induction n generalizing bs with
  | zero => exact ⟨[], rfl, List.eq_nil_of_length_eq_zero (by omega)⟩
  | succ n ih =>
    obtain ⟨start, bs, rfl⟩ := exists_putU2_append (show 2 ≤ bs.length by omega)
    rw [List.length_append, putU2, Bytes.length_bigEndian] at h
    obtain ⟨length, bs, rfl⟩ := exists_putU2_append (show 2 ≤ bs.length by omega)
    rw [List.length_append, putU2, Bytes.length_bigEndian] at h
    obtain ⟨index, bs, rfl⟩ := exists_putU2_append (show 2 ≤ bs.length by omega)
    rw [List.length_append, putU2, Bytes.length_bigEndian] at h
    obtain ⟨ranges, rfl, rfl⟩ := ih (show bs.length = n * 6 by omega)
    exact ⟨⟨start, length, index⟩ :: ranges, rfl, by simp [LocalRange.encode]⟩

/-- Two bytes for each step are steps. -/
theorem exists_steps {n : Nat} {bs : Bytes} (h : bs.length = n * 2) :
    ∃ steps : List (UInt8 × UInt8), steps.length = n
      ∧ bs = steps.flatMap fun step => [step.1, step.2] := by
  induction n generalizing bs with
  | zero => exact ⟨[], rfl, List.eq_nil_of_length_eq_zero (by omega)⟩
  | succ n ih =>
    obtain ⟨kind, bs, rfl⟩ := List.exists_cons_of_length_pos (l := bs) (by omega)
    rw [List.length_cons] at h
    obtain ⟨index, bs, rfl⟩ := List.exists_cons_of_length_pos (l := bs) (by omega)
    rw [List.length_cons] at h
    obtain ⟨steps, rfl, rfl⟩ := ih (show bs.length = n * 2 by omega)
    exact ⟨(kind, index) :: steps, rfl, rfl⟩

/-! ## What is read -/

/-- As many bytes as the size for a kind of target says are one of its forms. -/
theorem isTarget_of_fixed {t : UInt8} {n : Nat} {info : Bytes}
    (hsize : targetSize? t = some (.fixed n)) (hinfo : info.length = n) : IsTarget t info := by
  -- the sizes are one, two, none and three bytes, in this order
  unfold targetSize? at hsize
  dsimp only at hsize
  split at hsize
  · cases hsize
    rename_i hkind
    obtain ⟨i, rfl⟩ := List.length_eq_one_iff.1 hinfo
    rcases hkind with hkind | hkind | hkind
    · exact .typeParameter i (.inl (UInt8.toNat_inj.1 hkind))
    · exact .typeParameter i (.inr (UInt8.toNat_inj.1 hkind))
    · exact .parameter i (UInt8.toNat_inj.1 hkind)
  split at hsize
  · cases hsize
    rename_i hkind
    obtain ⟨i, hi⟩ := exists_putU2 hinfo
    obtain ⟨a, b, hab⟩ := List.length_eq_two.1 hinfo
    rcases hkind with hkind | hkind | hkind | hkind | ⟨hlow, hhigh⟩
    · exact hi ▸ .supertype i (UInt8.toNat_inj.1 hkind)
    · exact hab ▸ .bound a b (.inl (UInt8.toNat_inj.1 hkind))
    · exact hab ▸ .bound a b (.inr (UInt8.toNat_inj.1 hkind))
    · exact hi ▸ .thrown i (UInt8.toNat_inj.1 hkind)
    · rcases Nat.eq_or_lt_of_le hlow with hkind | hlow
      · exact hi ▸ .handled i (UInt8.toNat_inj.1 hkind.symm)
      · exact hi ▸ .instruction i hlow hhigh
  split at hsize
  · cases hsize
    rename_i hkind
    obtain rfl := List.eq_nil_of_length_eq_zero hinfo
    have hkind : t.toNat = 0x13 ∨ t.toNat = 0x14 ∨ t.toNat = 0x15 := by omega
    exact .declared (hkind.imp UInt8.toNat_inj.1 (Or.imp UInt8.toNat_inj.1 UInt8.toNat_inj.1))
  split at hsize
  · cases hsize
    rename_i hkind
    obtain ⟨offset, rest, rfl⟩ := exists_putU2_append (show 2 ≤ info.length by omega)
    rw [List.length_append, putU2, Bytes.length_bigEndian] at hinfo
    obtain ⟨i, rfl⟩ := List.length_eq_one_iff.1 (show rest.length = 1 by omega)
    exact .typeArgument offset i hkind.1 hkind.2
  split at hsize <;> cases hsize

theorem localVariable_of_table {t : UInt8} (hsize : targetSize? t = some .table) :
    t = 0x40 ∨ t = 0x41 := by
  unfold targetSize? at hsize
  dsimp only at hsize
  repeat
    split at hsize
    · cases hsize
  split at hsize
  · rename_i hkind
    exact hkind.imp UInt8.toNat_inj.1 UInt8.toNat_inj.1
  · cases hsize

/-- The forms of a kind of target have the size that is looked up for it. -/
theorem size_of_isTarget {t : UInt8} {info : Bytes} (h : IsTarget t info) :
    targetSize? t = some (.fixed info.length) ∨ targetSize? t = some .table
      ∧ ∃ ranges, ranges.length < UInt16.size ∧ info = putList LocalRange.encode ranges := by
  cases h with
  | typeParameter i ht => rcases ht with rfl | rfl <;> exact .inl rfl
  | supertype i ht => exact ht ▸ .inl rfl
  | bound parameter bound ht => rcases ht with rfl | rfl <;> exact .inl rfl
  | declared ht => rcases ht with rfl | rfl | rfl <;> exact .inl rfl
  | parameter i ht => exact ht ▸ .inl rfl
  | thrown i ht => exact ht ▸ .inl rfl
  | localVariable ranges ht hcount =>
    rcases ht with rfl | rfl <;> exact .inr ⟨rfl, ranges, hcount, rfl⟩
  | handled i ht => exact ht ▸ .inl rfl
  | instruction offset hlow hhigh =>
    have hlow : 0x43 ≤ t.toNat := hlow
    have hhigh : t.toNat ≤ 0x46 := hhigh
    refine .inl ?_
    unfold targetSize?
    dsimp only
    rw [if_neg (by omega), if_pos (by omega), putU2, Bytes.length_bigEndian]
  | typeArgument offset i hlow hhigh =>
    have hlow : 0x47 ≤ t.toNat := hlow
    have hhigh : t.toNat ≤ 0x4b := hhigh
    refine .inl ?_
    unfold targetSize?
    dsimp only
    rw [if_neg (by omega), if_neg (by omega), if_neg (by omega), if_pos (by omega),
      List.length_append, putU2, Bytes.length_bigEndian]
    rfl

/-- Counted ranges are read, and nothing else. -/
theorem readRanges_eq_ok {bs info rest : Bytes} :
    (do
      let count ← Reader.u2
      let entries ← Reader.take (count.toNat * 6)
      return putU2 count ++ entries : Reader Bytes) bs = .ok info rest ↔
    ∃ ranges : List LocalRange, ranges.length < UInt16.size
      ∧ info = putList LocalRange.encode ranges ∧ bs = info ++ rest := by
  simp only [bind_eq_ok, Reader.u2_eq_ok, Reader.take_eq_ok, pure_eq_ok]
  constructor
  · rintro ⟨count, _, rfl, _, _, ⟨hentries, rfl⟩, rfl, rfl⟩
    obtain ⟨ranges, hcount, rfl⟩ := exists_ranges hentries
    refine ⟨ranges, hcount ▸ count.toNat_lt, ?_, (List.append_assoc ..).symm⟩
    rw [putList, hcount, putU2]
  · rintro ⟨ranges, hcount, rfl, rfl⟩
    have hform : putList LocalRange.encode ranges
        = putU2 (UInt16.ofNat ranges.length) ++ ranges.flatMap LocalRange.encode := by
      rw [putList, putU2, UInt16.toNat_ofNat_of_lt' hcount]
    refine ⟨UInt16.ofNat ranges.length, ranges.flatMap LocalRange.encode ++ rest, ?_,
      ranges.flatMap LocalRange.encode, rest, ⟨?_, rfl⟩, hform.symm, rfl⟩
    · rw [hform, List.append_assoc]
    · rw [UInt16.toNat_ofNat_of_lt' hcount, length_encodeRanges]

/-- A target is read in the forms of its kind, and in no other. -/
theorem readTarget_eq_ok {t : UInt8} {bs info rest : Bytes} :
    readTarget t bs = .ok info rest ↔ IsTarget t info ∧ bs = info ++ rest := by
  unfold readTarget
  constructor
  · intro h
    generalize hsize : targetSize? t = size at h
    match size with
    | none => exact absurd h throw_ne_ok
    | some (.fixed n) =>
      obtain ⟨hinfo, rfl⟩ := Reader.take_eq_ok.1 h
      exact ⟨isTarget_of_fixed hsize hinfo, rfl⟩
    | some .table =>
      obtain ⟨ranges, hcount, rfl, rfl⟩ := readRanges_eq_ok.1 h
      exact ⟨.localVariable ranges (localVariable_of_table hsize) hcount, rfl⟩
  · rintro ⟨hinfo, rfl⟩
    obtain hsize | ⟨hsize, ranges, hcount, rfl⟩ := size_of_isTarget hinfo
    · rw [hsize]
      exact Reader.take_eq_ok.2 ⟨rfl, rfl⟩
    · rw [hsize]
      exact readRanges_eq_ok.2 ⟨ranges, hcount, rfl, rfl⟩

/-- A path is read in its form, and in no other. -/
theorem readPath_eq_ok {bs path rest : Bytes} :
    readPath bs = .ok path rest ↔ IsPath path ∧ bs = path ++ rest := by
  simp only [readPath, bind_eq_ok, Reader.u1_eq_ok, Reader.take_eq_ok, pure_eq_ok]
  constructor
  · rintro ⟨length, _, rfl, _, _, ⟨hlength, rfl⟩, rfl, rfl⟩
    obtain ⟨steps, hcount, rfl⟩ := exists_steps hlength
    refine ⟨⟨steps, hcount ▸ length.toNat_lt, ?_⟩, rfl⟩
    rw [hcount, UInt8.ofNat_toNat]
  · rintro ⟨⟨steps, hcount, rfl⟩, rfl⟩
    refine ⟨_, _, rfl, _, rest, ⟨?_, rfl⟩, rfl, rfl⟩
    rw [UInt8.toNat_ofNat_of_lt' hcount, length_encodeSteps]

/-! A reader has one result, so targets and paths are read off in one way. -/

theorem IsTarget.append_inj {t : UInt8} {info info' bs cs : Bytes} (h : IsTarget t info)
    (h' : IsTarget t info') (heq : info ++ bs = info' ++ cs) : info = info' ∧ bs = cs := by
  have hread := readTarget_eq_ok.2 ⟨h, heq.symm⟩
  rw [readTarget_eq_ok.2 ⟨h', rfl⟩] at hread
  injection hread with hinfo hrest
  exact ⟨hinfo.symm, hrest.symm⟩

theorem IsPath.append_inj {path path' bs cs : Bytes} (h : IsPath path) (h' : IsPath path')
    (heq : path ++ bs = path' ++ cs) : path = path' ∧ bs = cs := by
  have hread := readPath_eq_ok.2 ⟨h, heq.symm⟩
  rw [readPath_eq_ok.2 ⟨h', rfl⟩] at hread
  injection hread with hpath hrest
  exact ⟨hpath.symm, hrest.symm⟩

end Jarwright.Renaming
