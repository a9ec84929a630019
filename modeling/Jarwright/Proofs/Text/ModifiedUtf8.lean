import Jarwright.Text.ModifiedUtf8

/-!
# Modified UTF-8: reading back what was written

The encoder goes through UTF-16 code units and writes each unit on its own, so the round trip is
two streaming round trips put together:

* `decodeUnits?_flatMap_encodeUnit`: the bytes of units are read as these units;
* `ofUnits?_units`: the units of a text are read as the text.

The reader copies plain ASCII bytes without going through units. `decode?_eq_decodeGeneral?` says
that this shortcut gives what the general reader gives, and `decode?_encode` is the round trip.
-/

namespace Jarwright.Text

/-! ## Code units -/

theorem toNat_lt_or_ge (c : Char) : c.toNat < 0xd800 ∨ 0xe000 ≤ c.toNat ∧ c.toNat < 0x110000 := by
  rcases c.valid with h | ⟨h, h'⟩
  · exact .inl h
  · exact .inr ⟨h, h'⟩

theorem charUnits_lt {c : Char} {u : Nat} (h : u ∈ charUnits c) : u < 0x10000 := by
  have hc := toNat_lt_or_ge c
  unfold charUnits at h
  dsimp only at h
  split at h
  · rw [List.mem_singleton.1 h]
    assumption
  · simp only [List.mem_cons, List.not_mem_nil, or_false] at h
    omega

theorem units_lt {cs : List Char} {u : Nat} (h : u ∈ units cs) : u < 0x10000 := by
  obtain ⟨c, -, hu⟩ := List.mem_flatMap.1 h
  exact charUnits_lt hu

theorem ofUnitsFrom_cons (done : List Char) {u : Nat} (h : u < 0xd800 ∨ 0xe000 ≤ u)
    (rest : List Nat) : ofUnitsFrom done (u :: rest) = ofUnitsFrom (Char.ofNat u :: done) rest := by
  rw [ofUnitsFrom.eq_def]
  exact if_pos h

theorem ofUnitsFrom_pair (done : List Char) {u v : Nat} (hu : 0xd800 ≤ u ∧ u < 0xdc00)
    (hv : 0xdc00 ≤ v ∧ v < 0xe000) (rest : List Nat) :
    ofUnitsFrom done (u :: v :: rest)
      = ofUnitsFrom (Char.ofNat (0x10000 + (u - 0xd800) * 0x400 + (v - 0xdc00)) :: done) rest := by
  have hnot : ¬ (u < 0xd800 ∨ 0xe000 ≤ u) := by omega
  rw [ofUnitsFrom.eq_def]
  dsimp only
  rw [if_neg hnot, if_pos hu.2, if_pos hv]

/-- The units of one character are read as that character. -/
theorem ofUnitsFrom_charUnits (done : List Char) (c : Char) (rest : List Nat) :
    ofUnitsFrom done (charUnits c ++ rest) = ofUnitsFrom (c :: done) rest := by
  have hc := toNat_lt_or_ge c
  unfold charUnits
  dsimp only
  split
  · rw [List.singleton_append, ofUnitsFrom_cons done (by omega), Char.ofNat_toNat]
  · have hsum : 0x10000 + (0xd800 + (c.toNat - 0x10000) / 0x400 - 0xd800) * 0x400
        + (0xdc00 + (c.toNat - 0x10000) % 0x400 - 0xdc00) = c.toNat := by omega
    rw [List.cons_append, List.singleton_append,
      ofUnitsFrom_pair done (by omega) (by omega), hsum, Char.ofNat_toNat]

theorem ofUnitsFrom_units (done cs : List Char) :
    ofUnitsFrom done (units cs) = some (done.reverse ++ cs) := by
  induction cs generalizing done with
  | nil => simp [units, ofUnitsFrom]
  | cons c cs ih =>
    have hcons : units (c :: cs) = charUnits c ++ units cs := rfl
    rw [hcons, ofUnitsFrom_charUnits, ih]
    simp

/-- The units of a text are read as that text. -/
theorem ofUnits?_units (cs : List Char) : ofUnits? (units cs) = some cs := by
  rw [ofUnits?, ofUnitsFrom_units]
  rfl

namespace ModifiedUtf8

/-! ## Bytes of units -/

theorem toNat_ofNat_byte {n : Nat} (h : n < 0x100) : (UInt8.ofNat n).toNat = n :=
  UInt8.toNat_ofNat_of_lt h

theorem decodeUnitsFrom_one (done : List Nat) {b : UInt8} (h : 0 < b.toNat ∧ b.toNat < 0x80)
    (rest : Bytes) : decodeUnitsFrom done (b :: rest) = decodeUnitsFrom (b.toNat :: done) rest := by
  rw [decodeUnitsFrom.eq_def]
  dsimp only
  rw [if_neg (by omega), if_pos h.2]

theorem decodeUnitsFrom_two (done : List Nat) {b₀ b₁ : UInt8}
    (h₀ : 0xc0 ≤ b₀.toNat ∧ b₀.toNat < 0xe0) (h₁ : isContinuation b₁ = true) (rest : Bytes) :
    decodeUnitsFrom done (b₀ :: b₁ :: rest)
      = decodeUnitsFrom (((b₀.toNat - 0xc0) * 0x40 + (b₁.toNat - 0x80)) :: done) rest := by
  rw [decodeUnitsFrom.eq_def]
  dsimp only
  rw [if_neg (by omega), if_neg (by omega), if_pos h₀, if_pos h₁]

theorem decodeUnitsFrom_three (done : List Nat) {b₀ b₁ b₂ : UInt8}
    (h₀ : 0xe0 ≤ b₀.toNat ∧ b₀.toNat < 0xf0) (h₁ : isContinuation b₁ = true)
    (h₂ : isContinuation b₂ = true) (rest : Bytes) :
    decodeUnitsFrom done (b₀ :: b₁ :: b₂ :: rest)
      = decodeUnitsFrom (((b₀.toNat - 0xe0) * 0x1000 + (b₁.toNat - 0x80) * 0x40
          + (b₂.toNat - 0x80)) :: done) rest := by
  rw [decodeUnitsFrom.eq_def]
  dsimp only
  rw [if_neg (by omega), if_neg (by omega), if_neg (by omega), if_pos h₀]
  simp [h₁, h₂]

theorem isContinuation_ofNat {n : Nat} (h : n < 0x40) :
    (UInt8.ofNat (0x80 + n)).toNat = 0x80 + n ∧ isContinuation (UInt8.ofNat (0x80 + n)) = true := by
  have hn : (UInt8.ofNat (0x80 + n)).toNat = 0x80 + n := toNat_ofNat_byte (by omega)
  refine ⟨hn, ?_⟩
  simp only [isContinuation, hn, Bool.and_eq_true, decide_eq_true_eq]
  omega

/-- The bytes of one unit are read as that unit. -/
theorem decodeUnitsFrom_encodeUnit (done : List Nat) {u : Nat} (h : u < 0x10000) (rest : Bytes) :
    decodeUnitsFrom done (encodeUnit u ++ rest) = decodeUnitsFrom (u :: done) rest := by
  unfold encodeUnit
  split
  · have hu : (UInt8.ofNat u).toNat = u := toNat_ofNat_byte (by omega)
    rw [List.singleton_append, decodeUnitsFrom_one done (by omega), hu]
  · obtain ⟨hlow, hlow'⟩ := isContinuation_ofNat (Nat.mod_lt u (by omega : 0 < 0x40))
    split
    · have h₀ : (UInt8.ofNat (0xc0 + u / 0x40)).toNat = 0xc0 + u / 0x40 :=
        toNat_ofNat_byte (by omega)
      have hsum : (0xc0 + u / 0x40 - 0xc0) * 0x40 + (0x80 + u % 0x40 - 0x80) = u := by omega
      rw [List.cons_append, List.singleton_append,
        decodeUnitsFrom_two done (by omega) hlow', h₀, hlow, hsum]
    · obtain ⟨hmid, hmid'⟩ := isContinuation_ofNat (Nat.mod_lt (u / 0x40) (by omega : 0 < 0x40))
      have h₀ : (UInt8.ofNat (0xe0 + u / 0x1000)).toNat = 0xe0 + u / 0x1000 :=
        toNat_ofNat_byte (by omega)
      have hsum : (0xe0 + u / 0x1000 - 0xe0) * 0x1000 + (0x80 + u / 0x40 % 0x40 - 0x80) * 0x40
          + (0x80 + u % 0x40 - 0x80) = u := by omega
      rw [List.cons_append, List.cons_append, List.singleton_append,
        decodeUnitsFrom_three done (by omega) hmid' hlow', h₀, hmid, hlow, hsum]

theorem decodeUnitsFrom_flatMap_encodeUnit (done us : List Nat) (h : ∀ u ∈ us, u < 0x10000) :
    decodeUnitsFrom done (us.flatMap encodeUnit) = some (done.reverse ++ us) := by
  induction us generalizing done with
  | nil => simp [decodeUnitsFrom]
  | cons u us ih =>
    have hu : u < 0x10000 := h u (List.mem_cons_self ..)
    have hus : ∀ v ∈ us, v < 0x10000 := fun v hv => h v (List.mem_cons_of_mem _ hv)
    rw [List.flatMap_cons, decodeUnitsFrom_encodeUnit done hu, ih _ hus]
    simp

/-- The bytes of units are read as these units. -/
theorem decodeUnits?_flatMap_encodeUnit {us : List Nat} (h : ∀ u ∈ us, u < 0x10000) :
    decodeUnits? (us.flatMap encodeUnit) = some us := by
  rw [decodeUnits?, decodeUnitsFrom_flatMap_encodeUnit [] us h]
  rfl

/-- The general reader gives back the text that was written. -/
theorem decodeGeneral?_encode (cs : List Char) : decodeGeneral? (encode cs) = some cs := by
  rw [decodeGeneral?, encode, decodeUnits?_flatMap_encodeUnit fun _ => units_lt]
  exact ofUnits?_units cs

/-! ## The shortcut for plain bytes -/

theorem decodeUnitsFrom_of_isPlain (done : List Nat) {bs : Bytes} (h : isPlain bs = true) :
    decodeUnitsFrom done bs = some (done.reverse ++ bs.map UInt8.toNat) := by
  induction bs generalizing done with
  | nil => simp [decodeUnitsFrom]
  | cons b bs ih =>
    simp only [isPlain, List.all_cons, Bool.and_eq_true, decide_eq_true_eq] at h
    obtain ⟨⟨hzero, hlt⟩, hbs⟩ := h
    have hne : b.toNat ≠ 0 := fun hb => hzero (UInt8.toNat_inj.1 hb)
    rw [decodeUnitsFrom_one done (by omega), ih _ hbs]
    simp

theorem ofUnitsFrom_of_lt (done : List Char) {us : List Nat} (h : ∀ u ∈ us, u < 0x80) :
    ofUnitsFrom done us = some (done.reverse ++ us.map Char.ofNat) := by
  induction us generalizing done with
  | nil => simp [ofUnitsFrom]
  | cons u us ih =>
    have hu : u < 0x80 := h u (List.mem_cons_self ..)
    have hus : ∀ v ∈ us, v < 0x80 := fun v hv => h v (List.mem_cons_of_mem _ hv)
    rw [ofUnitsFrom_cons done (.inl (by omega)), ih _ hus]
    simp

/-- Copying plain bytes gives what the general reader gives. -/
theorem decode?_eq_decodeGeneral? (bs : Bytes) : decode? bs = decodeGeneral? bs := by
  unfold decode?
  split
  · rename_i hplain
    have hlt : ∀ u ∈ bs.map UInt8.toNat, u < 0x80 := by
      intro u hu
      obtain ⟨b, hb, rfl⟩ := List.mem_map.1 hu
      have := List.all_eq_true.1 hplain b hb
      simp only [Bool.and_eq_true, decide_eq_true_eq] at this
      exact this.2
    have hunits : ofUnits? (bs.map UInt8.toNat) = some (bs.map fun b => Char.ofNat b.toNat) := by
      rw [ofUnits?, ofUnitsFrom_of_lt [] hlt, List.map_map]
      rfl
    rw [decodeGeneral?, decodeUnits?, decodeUnitsFrom_of_isPlain [] hplain]
    exact hunits.symm
  · rfl

/-- A text that is written and read again is the same text. -/
theorem decode?_encode (cs : List Char) : decode? (encode cs) = some cs := by
  rw [decode?_eq_decodeGeneral?, decodeGeneral?_encode]

end ModifiedUtf8

end Jarwright.Text
