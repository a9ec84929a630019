import Mathlib.Algebra.Order.BigOperators.Group.List
import Mathlib.Algebra.Order.Group.Nat
import Jarwright.Proofs.Text.ModifiedUtf8

/-!
# Modified UTF-8: the forms of code units

A code unit is written as a `Form` of one, two or three bytes. The reader takes every form whose
bytes are in range, also one that is longer than its unit needs (`Form.IsOverlong`), so several byte
strings can spell one text. The writer uses the shortest form.

* `exists_forms`: what is read as units is a sequence of forms of these units;
* `Form.encodeUnit_unit` and `Form.length_encodeUnit_lt`: a unit is written in the form it was read
  from if that is not overlong, and shorter if it is;
* `units_of_ofUnits?`: a text has the units that it was read from.

`encode_eq_iff` puts them together: bytes that are read as a text are its written form exactly if
no form in them is overlong. `written_and_read` collects the laws of reader and writer.
-/

namespace Jarwright.Text

/-! ## Texts from units -/

theorem toNat_charOfNat {n : Nat} (h : n < 0xd800 ∨ 0xe000 ≤ n ∧ n < 0x110000) :
    (Char.ofNat n).toNat = n := by
  have hvalid : n.isValidChar := h.imp_right fun h => ⟨h.1, h.2⟩
  rw [Char.ofNat, dif_pos hvalid]
  rfl

theorem charUnits_ofNat {u : Nat} (hu : u < 0xd800 ∨ 0xe000 ≤ u) (hlt : u < 0x10000) :
    charUnits (Char.ofNat u) = [u] := by
  have hchar : (Char.ofNat u).toNat = u := toNat_charOfNat (by omega)
  simp only [charUnits, hchar, if_pos hlt]

theorem charUnits_pair {u v : Nat} (hu : 0xd800 ≤ u ∧ u < 0xdc00) (hv : 0xdc00 ≤ v ∧ v < 0xe000) :
    charUnits (Char.ofNat (0x10000 + (u - 0xd800) * 0x400 + (v - 0xdc00))) = [u, v] := by
  generalize hn : 0x10000 + (u - 0xd800) * 0x400 + (v - 0xdc00) = n
  have hchar : (Char.ofNat n).toNat = n := toNat_charOfNat (by omega)
  have hhigh : 0xd800 + (n - 0x10000) / 0x400 = u := by omega
  have hlow : 0xdc00 + (n - 0x10000) % 0x400 = v := by omega
  simp only [charUnits, hchar, if_neg (by omega : ¬ n < 0x10000), hhigh, hlow]

/-- The characters that units are read as have these units. -/
theorem units_of_ofUnitsFrom {done cs : List Char} {us : List Nat}
    (h : ofUnitsFrom done us = some cs) (hus : ∀ u ∈ us, u < 0x10000) :
    units cs = units done.reverse ++ us := by
  induction done, us using ofUnitsFrom.induct with
  | case1 done =>
    obtain rfl : done.reverse = cs := by simpa [ofUnitsFrom] using h
    simp
  | case2 done u rest hu ih =>
    obtain ⟨hlt, hrest⟩ := List.forall_mem_cons.1 hus
    rw [ofUnitsFrom_cons done hu] at h
    rw [ih h hrest]
    simp [units, charUnits_ofNat hu hlt]
  | case3 done u hnot hu v rest hv ih =>
    have hu : 0xd800 ≤ u ∧ u < 0xdc00 := by omega
    have hrest := (List.forall_mem_cons.1 (List.forall_mem_cons.1 hus).2).2
    rw [ofUnitsFrom_pair done hu hv] at h
    rw [ih h hrest]
    simp [units, charUnits_pair hu hv]
  | case4 done u hnot hu v rest hv =>
    rw [ofUnitsFrom.eq_def] at h
    simp only [if_neg hnot, if_pos hu, if_neg hv, reduceCtorEq] at h
  | case5 done u hnot hu =>
    rw [ofUnitsFrom.eq_def] at h
    simp only [if_neg hnot, if_pos hu, reduceCtorEq] at h
  | case6 done u rest hnot hu =>
    rw [ofUnitsFrom.eq_def] at h
    simp only [if_neg hnot, if_neg hu, reduceCtorEq] at h

/-- A text has the units that it was read from. -/
theorem units_of_ofUnits? {us : List Nat} {cs : List Char} (h : ofUnits? us = some cs)
    (hus : ∀ u ∈ us, u < 0x10000) : units cs = us :=
  units_of_ofUnitsFrom h hus

namespace ModifiedUtf8

/-! ## Forms -/

/-- The bytes with which one code unit is spelled. -/
inductive Form where
  | one (b : UInt8)
  | two (b₀ b₁ : UInt8)
  | three (b₀ b₁ b₂ : UInt8)
  deriving DecidableEq, Repr

namespace Form

/-- The bytes of a form in order. -/
def bytes : Form → Bytes
  | one b => [b]
  | two b₀ b₁ => [b₀, b₁]
  | three b₀ b₁ b₂ => [b₀, b₁, b₂]

/-- The unit that a form spells: the payload bits of its bytes. -/
def unit : Form → Nat
  | one b => b.toNat
  | two b₀ b₁ => (b₀.toNat - 0xc0) * 0x40 + (b₁.toNat - 0x80)
  | three b₀ b₁ b₂ =>
    (b₀.toNat - 0xe0) * 0x1000 + (b₁.toNat - 0x80) * 0x40 + (b₂.toNat - 0x80)

theorem unit_one (b : UInt8) : (one b).unit = b.toNat := rfl

theorem unit_two (b₀ b₁ : UInt8) :
    (two b₀ b₁).unit = (b₀.toNat - 0xc0) * 0x40 + (b₁.toNat - 0x80) := rfl

theorem unit_three (b₀ b₁ b₂ : UInt8) : (three b₀ b₁ b₂).unit
    = (b₀.toNat - 0xe0) * 0x1000 + (b₁.toNat - 0x80) * 0x40 + (b₂.toNat - 0x80) := rfl

/-- The bytes of a form are in range: the first one says how many there are. -/
def WellFormed : Form → Prop
  | one b => 0 < b.toNat ∧ b.toNat < 0x80
  | two b₀ b₁ => (0xc0 ≤ b₀.toNat ∧ b₀.toNat < 0xe0) ∧ isContinuation b₁ = true
  | three b₀ b₁ b₂ => (0xe0 ≤ b₀.toNat ∧ b₀.toNat < 0xf0) ∧ isContinuation b₁ = true
      ∧ isContinuation b₂ = true

/-- A form is longer than its unit needs. The unit zero needs two bytes. -/
def IsOverlong : Form → Prop
  | one _ => False
  | two b₀ b₁ => 1 ≤ (two b₀ b₁).unit ∧ (two b₀ b₁).unit < 0x80
  | three b₀ b₁ b₂ => (three b₀ b₁ b₂).unit < 0x800

instance : (f : Form) → Decidable f.WellFormed
  | one _ => inferInstanceAs (Decidable (_ ∧ _))
  | two _ _ => inferInstanceAs (Decidable (_ ∧ _))
  | three _ _ _ => inferInstanceAs (Decidable (_ ∧ _))

instance : (f : Form) → Decidable f.IsOverlong
  | one _ => inferInstanceAs (Decidable False)
  | two _ _ => inferInstanceAs (Decidable (_ ∧ _))
  | three _ _ _ => inferInstanceAs (Decidable (_ < _))

end Form

theorem le_of_isContinuation {b : UInt8} (h : isContinuation b = true) :
    0x80 ≤ b.toNat ∧ b.toNat < 0xc0 := by
  simpa only [isContinuation, Bool.and_eq_true, decide_eq_true_eq] using h

namespace Form

theorem length_bytes_pos (f : Form) : 0 < f.bytes.length := by
  cases f <;> exact Nat.succ_pos _

theorem unit_lt {f : Form} (h : f.WellFormed) : f.unit < 0x10000 := by
  cases f with
  | one b =>
    have hb := h.2
    rw [unit_one]
    omega
  | two b₀ b₁ =>
    have h₁ := le_of_isContinuation h.2
    have h₀ := h.1
    rw [unit_two]
    omega
  | three b₀ b₁ b₂ =>
    have h₁ := le_of_isContinuation h.2.1
    have h₂ := le_of_isContinuation h.2.2
    have h₀ := h.1
    rw [unit_three]
    omega

/-- A form is read as its unit. -/
theorem decodeUnitsFrom_bytes {f : Form} (h : f.WellFormed) (done : List Nat) (rest : Bytes) :
    decodeUnitsFrom done (f.bytes ++ rest) = decodeUnitsFrom (f.unit :: done) rest := by
  cases f with
  | one b => exact decodeUnitsFrom_one done h rest
  | two b₀ b₁ => exact decodeUnitsFrom_two done h.1 h.2 rest
  | three b₀ b₁ b₂ => exact decodeUnitsFrom_three done h.1 h.2.1 h.2.2 rest

/-- A unit is written in the form that it was read from, unless this is overlong. -/
theorem encodeUnit_unit {f : Form} (h : f.WellFormed) (hshort : ¬ f.IsOverlong) :
    encodeUnit f.unit = f.bytes := by
  cases f with
  | one b =>
    have hb : 1 ≤ b.toNat ∧ b.toNat < 0x80 := h
    rw [unit_one, encodeUnit, if_pos hb, UInt8.ofNat_toNat, bytes]
  | two b₀ b₁ =>
    have h₁ := le_of_isContinuation h.2
    have h₀ := h.1
    rw [IsOverlong] at hshort
    rw [encodeUnit, if_neg hshort]
    rw [unit_two] at hshort ⊢
    generalize hn : (b₀.toNat - 0xc0) * 0x40 + (b₁.toNat - 0x80) = n at hshort ⊢
    have hfirst : 0xc0 + n / 0x40 = b₀.toNat := by omega
    have hlast : 0x80 + n % 0x40 = b₁.toNat := by omega
    rw [if_pos (by omega), hfirst, hlast, UInt8.ofNat_toNat, UInt8.ofNat_toNat, bytes]
  | three b₀ b₁ b₂ =>
    have h₁ := le_of_isContinuation h.2.1
    have h₂ := le_of_isContinuation h.2.2
    have h₀ := h.1
    rw [IsOverlong] at hshort
    rw [encodeUnit, if_neg (fun h => hshort (Nat.lt_trans h.2 (by decide))), if_neg hshort]
    rw [unit_three] at hshort ⊢
    generalize hn : (b₀.toNat - 0xe0) * 0x1000 + (b₁.toNat - 0x80) * 0x40 + (b₂.toNat - 0x80) = n
    have hfirst : 0xe0 + n / 0x1000 = b₀.toNat := by omega
    have hmid : 0x80 + n / 0x40 % 0x40 = b₁.toNat := by omega
    have hlast : 0x80 + n % 0x40 = b₂.toNat := by omega
    rw [hfirst, hmid, hlast, UInt8.ofNat_toNat, UInt8.ofNat_toNat, UInt8.ofNat_toNat, bytes]

/-- A unit that was read from an overlong form is written on fewer bytes. -/
theorem length_encodeUnit_lt {f : Form} (hlong : f.IsOverlong) :
    (encodeUnit f.unit).length < f.bytes.length := by
  cases f with
  | one b => exact hlong.elim
  | two b₀ b₁ =>
    rw [IsOverlong] at hlong
    rw [encodeUnit, if_pos hlong]
    exact Nat.lt_succ_self 1
  | three b₀ b₁ b₂ =>
    rw [IsOverlong] at hlong
    rw [encodeUnit, if_pos hlong]
    split
    · exact Nat.lt_succ_of_lt (Nat.lt_succ_self 1)
    · exact Nat.lt_succ_self 2

theorem length_encodeUnit_le {f : Form} (h : f.WellFormed) :
    (encodeUnit f.unit).length ≤ f.bytes.length := by
  by_cases hlong : f.IsOverlong
  · exact Nat.le_of_lt (length_encodeUnit_lt hlong)
  · exact Nat.le_of_eq (congrArg List.length (encodeUnit_unit h hlong))

end Form

/-! ## Sequences of forms -/

/-- The bytes of forms one after the other. -/
def spell (forms : List Form) : Bytes := forms.flatMap Form.bytes

/-- The units of forms one after the other. -/
def unitsOf (forms : List Form) : List Nat := forms.map Form.unit

/-- Bytes in which some unit is spelled with more bytes than it needs. -/
def HasOverlong (bs : Bytes) : Prop :=
  ∃ forms : List Form, (∀ f ∈ forms, f.WellFormed) ∧ bs = spell forms ∧ ∃ f ∈ forms, f.IsOverlong

/-- Forms are read as their units. -/
theorem decodeUnitsFrom_spell {forms : List Form} (h : ∀ f ∈ forms, f.WellFormed)
    (done : List Nat) :
    decodeUnitsFrom done (spell forms) = some (done.reverse ++ unitsOf forms) := by
  induction forms generalizing done with
  | nil => simp [spell, unitsOf, decodeUnitsFrom]
  | cons f forms ih =>
    obtain ⟨hf, hforms⟩ := List.forall_mem_cons.1 h
    have hcons : spell (f :: forms) = f.bytes ++ spell forms := rfl
    rw [hcons, f.decodeUnitsFrom_bytes hf, ih hforms]
    simp [unitsOf]

/-- One step of the reader: it is at the end, or takes a form. -/
theorem decodeUnitsFrom_eq_some {done us : List Nat} {bs : Bytes}
    (h : decodeUnitsFrom done bs = some us) :
    bs = [] ∧ us = done.reverse ∨ ∃ (f : Form) (rest : Bytes), f.WellFormed ∧ bs = f.bytes ++ rest
      ∧ decodeUnitsFrom (f.unit :: done) rest = some us := by
  rw [decodeUnitsFrom.eq_def] at h
  split at h
  · exact .inl ⟨rfl, (Option.some.inj h).symm⟩
  rename_i b₀ rest
  dsimp only at h
  split at h
  · cases h
  rename_i hzero
  split at h
  · rename_i hone
    exact .inr ⟨.one b₀, rest, ⟨Nat.pos_of_ne_zero hzero, hone⟩, rfl, h⟩
  split at h
  · rename_i htwo
    split at h
    · rename_i b₁ rest
      split at h
      · rename_i h₁
        exact .inr ⟨.two b₀ b₁, rest, ⟨htwo, h₁⟩, rfl, h⟩
      · cases h
    · cases h
  split at h
  · rename_i hthree
    split at h
    · rename_i b₁ b₂ rest
      split at h
      · rename_i h₁₂
        obtain ⟨h₁, h₂⟩ := Bool.and_eq_true_iff.1 h₁₂
        exact .inr ⟨.three b₀ b₁ b₂, rest, ⟨hthree, h₁, h₂⟩, rfl, h⟩
      · cases h
    · cases h
  · cases h

/-- What is read as units is a sequence of forms of these units. -/
theorem exists_forms_from {done us : List Nat} {bs : Bytes}
    (h : decodeUnitsFrom done bs = some us) :
    ∃ forms : List Form, (∀ f ∈ forms, f.WellFormed) ∧ bs = spell forms
      ∧ us = done.reverse ++ unitsOf forms := by
  induction hlen : bs.length using Nat.strongRecOn generalizing bs done with
  | ind n ih =>
    obtain ⟨rfl, rfl⟩ | ⟨f, rest, hf, rfl, hrest⟩ := decodeUnitsFrom_eq_some h
    · exact ⟨[], by simp, rfl, by simp [unitsOf]⟩
    · have hshorter : rest.length < n := by
        have hpos := f.length_bytes_pos
        rw [List.length_append] at hlen
        omega
      obtain ⟨forms, hforms, rfl, rfl⟩ := ih rest.length hshorter hrest rfl
      exact ⟨f :: forms, List.forall_mem_cons.2 ⟨hf, hforms⟩, rfl, by simp [unitsOf]⟩

/-- What is read as units is a sequence of forms of these units. -/
theorem exists_forms {us : List Nat} {bs : Bytes} (h : decodeUnits? bs = some us) :
    ∃ forms : List Form, (∀ f ∈ forms, f.WellFormed) ∧ bs = spell forms ∧ us = unitsOf forms :=
  exists_forms_from h

/-- Units are written in the forms that they were read from exactly if none of these is overlong. A
unit of an overlong form is written shorter, and no unit is written longer. -/
theorem flatMap_encodeUnit_unitsOf {forms : List Form} (h : ∀ f ∈ forms, f.WellFormed) :
    (unitsOf forms).flatMap encodeUnit = spell forms ↔ ∀ f ∈ forms, ¬ f.IsOverlong := by
  constructor
  · intro heq f hf hlong
    have hle : ∀ g ∈ forms, (encodeUnit g.unit).length ≤ g.bytes.length :=
      fun g hg => g.length_encodeUnit_le (h g hg)
    have hlt : (forms.map fun g => (encodeUnit g.unit).length).sum
        < (forms.map fun g => g.bytes.length).sum :=
      List.sum_lt_sum _ _ hle ⟨f, hf, Form.length_encodeUnit_lt hlong⟩
    have hlen := congrArg List.length heq
    rw [unitsOf, spell, List.flatMap_map, List.length_flatMap, List.length_flatMap] at hlen
    exact absurd hlen (Nat.ne_of_lt hlt)
  · intro hshort
    rw [unitsOf, spell, List.flatMap_map]
    exact List.flatMap_congr fun f hf => f.encodeUnit_unit (h f hf) (hshort f hf)

/-! ## Texts -/

/-- A text that is read from a sequence of forms has the units of these forms. -/
theorem units_of_decode?_spell {forms : List Form} {cs : List Char}
    (h : ∀ f ∈ forms, f.WellFormed) (hcs : decode? (spell forms) = some cs) :
    units cs = unitsOf forms := by
  have hunits : decodeUnits? (spell forms) = some (unitsOf forms) := decodeUnitsFrom_spell h []
  rw [decode?_eq_decodeGeneral?, decodeGeneral?, hunits] at hcs
  refine units_of_ofUnits? hcs fun u hu => ?_
  obtain ⟨f, hf, rfl⟩ := List.mem_map.1 hu
  exact f.unit_lt (h f hf)

/-- Bytes that are read as a text are its written form exactly if no form in them is overlong. -/
theorem encode_eq_iff {bs : Bytes} {cs : List Char} (h : decode? bs = some cs) :
    encode cs = bs ↔ ¬ HasOverlong bs := by
  constructor
  · rintro hencode ⟨forms, hforms, rfl, f, hf, hlong⟩
    rw [encode, units_of_decode?_spell hforms h] at hencode
    exact (flatMap_encodeUnit_unitsOf hforms).1 hencode f hf hlong
  · intro hnone
    obtain ⟨us, hus, -⟩ := Option.bind_eq_some_iff.1
      (decode?_eq_decodeGeneral? bs ▸ h : decodeGeneral? bs = some cs)
    obtain ⟨forms, hforms, rfl, -⟩ := exists_forms hus
    rw [encode, units_of_decode?_spell hforms h]
    exact (flatMap_encodeUnit_unitsOf hforms).2 fun f hf hlong =>
      hnone ⟨forms, hforms, rfl, f, hf, hlong⟩

/-- The first byte of a form that is written is below `0xf0`, and none is zero. -/
theorem encodeUnit_range {u : Nat} (hu : u < 0x10000) {b : UInt8} (hb : b ∈ encodeUnit u) :
    b ≠ 0 ∧ b.toNat < 0xf0 := by
  -- every byte is a number of one of three kinds, each between the bounds
  obtain ⟨n, hpos, hlt, rfl⟩ : ∃ n, 0 < n ∧ n < 0xf0 ∧ b = UInt8.ofNat n := by
    unfold encodeUnit at hb
    split at hb
    · exact ⟨u, by omega, by omega, List.mem_singleton.1 hb⟩
    split at hb
    · simp only [List.mem_cons, List.not_mem_nil, or_false] at hb
      rcases hb with rfl | rfl <;> exact ⟨_, by omega, by omega, rfl⟩
    · simp only [List.mem_cons, List.not_mem_nil, or_false] at hb
      rcases hb with rfl | rfl | rfl <;> exact ⟨_, by omega, by omega, rfl⟩
  have hn : (UInt8.ofNat n).toNat = n := toNat_ofNat_byte (by omega)
  refine ⟨fun hzero => ?_, hn.symm ▸ hlt⟩
  rw [hzero] at hn
  exact Nat.ne_of_lt hpos hn

/-- **A text is written in one way and read in many.**  What is written for a text holds no zero
byte and no byte from `0xf0` on, and is read as that text. Copying plain bytes gives what the
general reader gives. Bytes that are read as a text are what is written for it exactly if none of
their forms is overlong. -/
theorem written_and_read :
    (∀ cs : List Char, decode? (encode cs) = some cs ∧ ∀ b ∈ encode cs, b ≠ 0 ∧ b.toNat < 0xf0)
    ∧ (∀ bs : Bytes, decode? bs = decodeGeneral? bs)
    ∧ ∀ (bs : Bytes) (cs : List Char), decode? bs = some cs →
      (encode cs = bs ↔ ¬ HasOverlong bs) := by
  refine ⟨fun cs => ⟨decode?_encode cs, fun b hb => ?_⟩, decode?_eq_decodeGeneral?,
    fun _ _ => encode_eq_iff⟩
  obtain ⟨u, hu, hb⟩ := List.mem_flatMap.1 hb
  exact encodeUnit_range (units_lt hu) hb

/-- The letter `A` in an overlong form, and a pair of surrogates. -/
theorem written_and_read_overlong :
    decode? [0xc1, 0x81] = some ['A'] ∧ HasOverlong [0xc1, 0x81] ∧ encode ['A'] ≠ [0xc1, 0x81]
      ∧ decode? [0xed, 0xa0, 0xbd, 0xed, 0xb8, 0x80] = some ['😀']
      ∧ ¬ HasOverlong [0xed, 0xa0, 0xbd, 0xed, 0xb8, 0x80] := by
  have hletter : decode? [0xc1, 0x81] = some ['A'] := by decide
  have hpair : decode? [0xed, 0xa0, 0xbd, 0xed, 0xb8, 0x80] = some ['😀'] := by decide
  have hlong : HasOverlong [0xc1, 0x81] :=
    ⟨[.two 0xc1 0x81], by decide, rfl, .two 0xc1 0x81, List.mem_singleton_self _, by decide⟩
  have hread := written_and_read.2.2
  exact ⟨hletter, hlong, fun h => (hread _ _ hletter).1 h hlong, hpair,
    (hread _ _ hpair).1 (by decide)⟩

end ModifiedUtf8

end Jarwright.Text
