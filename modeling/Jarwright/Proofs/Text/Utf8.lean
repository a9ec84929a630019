import Jarwright.Proofs.Text.ModifiedUtf8
import Jarwright.Text.Utf8

/-!
# UTF-8: reading back what was written

The reader takes each form apart as the writer puts it together (`scan_encodeChar`), so what was
written for a text is read as that text (`decode?_encode`).
-/

namespace Jarwright.Text.Utf8

/-! ## Forms -/

theorem scan_one {b₀ : UInt8} (h : b₀.toNat < 0x80) (rest : Bytes) :
    scan (b₀ :: rest) = some (Char.ofNat b₀.toNat) :: scan rest := by
  rw [scan.eq_def]
  exact if_pos h

theorem scan_two {b₀ b₁ : UInt8} (h₀ : 0xc2 ≤ b₀.toNat ∧ b₀.toNat < 0xe0)
    (h₁ : isSecond b₀ b₁ = true) (rest : Bytes) :
    scan (b₀ :: b₁ :: rest)
      = some (Char.ofNat ((b₀.toNat - 0xc0) * 0x40 + payload b₁)) :: scan rest := by
  have hlong : ¬ (b₀.toNat < 0xc2 ∨ 0xf4 < b₀.toNat) := by omega
  rw [scan.eq_def]
  dsimp only
  rw [if_neg (by omega), if_neg hlong, h₁, Bool.not_true, if_neg Bool.false_ne_true, if_pos h₀.2]

theorem scan_three {b₀ b₁ b₂ : UInt8} (h₀ : 0xe0 ≤ b₀.toNat ∧ b₀.toNat < 0xf0)
    (h₁ : isSecond b₀ b₁ = true) (h₂ : isTail b₂ = true) (rest : Bytes) :
    scan (b₀ :: b₁ :: b₂ :: rest)
      = some (Char.ofNat ((b₀.toNat - 0xe0) * 0x1000 + payload b₁ * 0x40 + payload b₂))
        :: scan rest := by
  have hlong : ¬ (b₀.toNat < 0xc2 ∨ 0xf4 < b₀.toNat) := by omega
  rw [scan.eq_def]
  dsimp only
  rw [if_neg (by omega), if_neg hlong, h₁, Bool.not_true, if_neg Bool.false_ne_true,
    if_neg (by omega), h₂, Bool.not_true, if_neg Bool.false_ne_true, if_pos h₀.2]

theorem scan_four {b₀ b₁ b₂ b₃ : UInt8} (h₀ : 0xf0 ≤ b₀.toNat ∧ b₀.toNat ≤ 0xf4)
    (h₁ : isSecond b₀ b₁ = true) (h₂ : isTail b₂ = true) (h₃ : isTail b₃ = true) (rest : Bytes) :
    scan (b₀ :: b₁ :: b₂ :: b₃ :: rest)
      = some (Char.ofNat ((b₀.toNat - 0xf0) * 0x40000 + payload b₁ * 0x1000 + payload b₂ * 0x40
          + payload b₃)) :: scan rest := by
  have hlong : ¬ (b₀.toNat < 0xc2 ∨ 0xf4 < b₀.toNat) := by omega
  rw [scan.eq_def]
  dsimp only
  rw [if_neg (by omega), if_neg hlong, h₁, Bool.not_true, if_neg Bool.false_ne_true,
    if_neg (by omega), h₂, Bool.not_true, if_neg Bool.false_ne_true, if_neg (by omega), h₃,
    Bool.not_true, if_neg Bool.false_ne_true]

/-! ## Bytes behind the first -/

theorem toNat_ofNat_tail {n : Nat} (h : n < 0x40) :
    (UInt8.ofNat (n + 0x80)).toNat = n + 0x80 := ModifiedUtf8.toNat_ofNat_byte (by omega)

theorem isTail_ofNat {n : Nat} (h : n < 0x40) : isTail (UInt8.ofNat (n + 0x80)) = true := by
  simp only [isTail, within, toNat_ofNat_tail h, Bool.and_eq_true, decide_eq_true_eq]
  omega

theorem payload_ofNat {n : Nat} (h : n < 0x40) : payload (UInt8.ofNat (n + 0x80)) = n := by
  rw [payload, toNat_ofNat_tail h]
  omega

/-- A byte that can stand behind the first is refused where the form would be too long for its
character, the character a surrogate, or its number too large. -/
theorem isSecond_of_isTail {b₀ b₁ : UInt8} (h : isTail b₁ = true)
    (he0 : b₀.toNat = 0xe0 → 0xa0 ≤ b₁.toNat) (hed : b₀.toNat = 0xed → b₁.toNat < 0xa0)
    (hf0 : b₀.toNat = 0xf0 → 0x90 ≤ b₁.toNat) (hf4 : b₀.toNat = 0xf4 → b₁.toNat < 0x90) :
    isSecond b₀ b₁ = true := by
  have hrange : 0x80 ≤ b₁.toNat ∧ b₁.toNat ≤ 0xbf := by
    simpa only [isTail, within, Bool.and_eq_true, decide_eq_true_eq] using h
  unfold isSecond
  split
  · rename_i hb
    have hlo := he0 (congrArg UInt8.toNat hb)
    simp only [within, Bool.and_eq_true, decide_eq_true_eq]
    omega
  split
  · rename_i hb
    have hhi := hed (congrArg UInt8.toNat hb)
    simp only [within, Bool.and_eq_true, decide_eq_true_eq]
    omega
  split
  · rename_i hb
    have hlo := hf0 (congrArg UInt8.toNat hb)
    simp only [within, Bool.and_eq_true, decide_eq_true_eq]
    omega
  split
  · rename_i hb
    have hhi := hf4 (congrArg UInt8.toNat hb)
    simp only [within, Bool.and_eq_true, decide_eq_true_eq]
    omega
  · exact h

/-! ## Texts -/

/-- The bytes of a character are read as that character. -/
theorem scan_encodeChar (c : Char) (rest : Bytes) :
    scan (String.utf8EncodeChar c ++ rest) = some c :: scan rest := by
  have hc := toNat_lt_or_ge c
  have hval : c.val.toNat = c.toNat := rfl
  unfold String.utf8EncodeChar
  simp only [hval]
  -- the tails hold six bits of the number each
  have hlow := Nat.mod_lt c.toNat (by omega : 0 < 0x40)
  have hmid := Nat.mod_lt (c.toNat / 0x40) (by omega : 0 < 0x40)
  have hhigh := Nat.mod_lt (c.toNat / 0x1000) (by omega : 0 < 0x40)
  split
  · have h₀ : (UInt8.ofNat c.toNat).toNat = c.toNat := ModifiedUtf8.toNat_ofNat_byte (by omega)
    rw [List.singleton_append, scan_one (by omega), h₀, Char.ofNat_toNat]
  split
  · have h₀ : (UInt8.ofNat (c.toNat / 0x40 % 0x20 + 0xc0)).toNat = c.toNat / 0x40 % 0x20 + 0xc0 :=
      ModifiedUtf8.toNat_ofNat_byte (by omega)
    have hsum : (c.toNat / 0x40 % 0x20 + 0xc0 - 0xc0) * 0x40 + c.toNat % 0x40 = c.toNat := by omega
    rw [List.cons_append, List.singleton_append,
      scan_two (by omega) (isSecond_of_isTail (isTail_ofNat hlow) (by omega) (by omega) (by omega)
        (by omega)), h₀, payload_ofNat hlow, hsum, Char.ofNat_toNat]
  split
  · have h₀ : (UInt8.ofNat (c.toNat / 0x1000 % 0x10 + 0xe0)).toNat
        = c.toNat / 0x1000 % 0x10 + 0xe0 := ModifiedUtf8.toNat_ofNat_byte (by omega)
    have h₁ := toNat_ofNat_tail hmid
    have hsum : (c.toNat / 0x1000 % 0x10 + 0xe0 - 0xe0) * 0x1000 + c.toNat / 0x40 % 0x40 * 0x40
        + c.toNat % 0x40 = c.toNat := by omega
    rw [List.cons_append, List.cons_append, List.singleton_append,
      scan_three (by omega) (isSecond_of_isTail (isTail_ofNat hmid) (by omega) (by omega) (by omega)
        (by omega)) (isTail_ofNat hlow), h₀, payload_ofNat hmid, payload_ofNat hlow, hsum,
      Char.ofNat_toNat]
  · have h₀ : (UInt8.ofNat (c.toNat / 0x40000 % 0x8 + 0xf0)).toNat
        = c.toNat / 0x40000 % 0x8 + 0xf0 := ModifiedUtf8.toNat_ofNat_byte (by omega)
    have h₁ := toNat_ofNat_tail hhigh
    have hsum : (c.toNat / 0x40000 % 0x8 + 0xf0 - 0xf0) * 0x40000
        + c.toNat / 0x1000 % 0x40 * 0x1000 + c.toNat / 0x40 % 0x40 * 0x40 + c.toNat % 0x40
          = c.toNat := by omega
    rw [List.cons_append, List.cons_append, List.cons_append, List.singleton_append,
      scan_four (by omega) (isSecond_of_isTail (isTail_ofNat hhigh) (by omega) (by omega) (by omega)
        (by omega)) (isTail_ofNat hmid) (isTail_ofNat hlow), h₀, payload_ofNat hhigh,
      payload_ofNat hmid, payload_ofNat hlow, hsum, Char.ofNat_toNat]

/-- A text that is written and read again is the same text. -/
theorem decode?_encode (cs : List Char) : decode? (encode cs) = some cs := by
  have hscan : scan (encode cs) = cs.map some := by
    induction cs with
    | nil => rfl
    | cons c cs ih => rw [encode, List.flatMap_cons, scan_encodeChar, ← encode, ih, List.map_cons]
  have hpure : (id ∘ some : Char → Option Char) = fun c => pure (id c) := rfl
  rw [decode?, hscan, List.mapM_map, hpure, List.mapM_pure, List.map_id]
  rfl

end Jarwright.Text.Utf8
