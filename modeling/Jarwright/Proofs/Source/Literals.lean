import Jarwright.Source.Token

/-!
# How far literals reach

Every literal takes a character at least, and no more than there are: the reader of a file makes
progress with each of them, and their offsets lie in the text.

* `Shortens` is a reader that takes characters, `Keeps` one that may take none; the forms of numbers
  are put together from both (`numberForms_shorten`);
* `Measures` is a number of characters that a text can hold: `numberLength?_measures`,
  `characterLength?_measures`, `textPiece?_measures` and `blockPiece?_measures`.
-/

namespace Jarwright.Source

/-- A number of characters at the start of a text, one at least. -/
structure Measures (cs : List Char) (n : Nat) : Prop where
  pos : 0 < n
  le_length : n ≤ cs.length

theorem Measures.succ {c : Char} {cs : List Char} {n : Nat} (h : Measures cs n) :
    Measures (c :: cs) (n + 1) :=
  ⟨Nat.succ_pos n, Nat.succ_le_succ h.le_length⟩

/-! ## Parts of numbers -/

/-- What the reader leaves is shorter than what it was given. -/
def Shortens (part : List Char → Option (List Char)) : Prop :=
  ∀ cs rest, part cs = some rest → rest.length < cs.length

/-- What the reader leaves is not longer than what it was given. -/
def Keeps (part : List Char → List Char) : Prop := ∀ cs, (part cs).length ≤ cs.length

theorem keeps_optionally {part : List Char → Option (List Char)} (h : Shortens part) :
    Keeps (optionally part) := by
  intro cs
  rw [optionally]
  cases hpart : part cs with
  | none => exact Nat.le_refl _
  | some rest => exact Nat.le_of_lt (h cs rest hpart)

/-- A part, and then one that may fail without the reader taking less. -/
theorem Shortens.bind {p q : List Char → Option (List Char)} (hp : Shortens p)
    (hq : ∀ cs rest, q cs = some rest → rest.length ≤ cs.length) :
    Shortens fun cs => (p cs).bind q := by
  intro cs rest h
  obtain ⟨middle, hmiddle, hrest⟩ := Option.bind_eq_some_iff.1 h
  exact Nat.lt_of_le_of_lt (hq _ _ hrest) (hp _ _ hmiddle)

theorem Shortens.le {p : List Char → Option (List Char)} (hp : Shortens p) (cs rest : List Char)
    (h : p cs = some rest) : rest.length ≤ cs.length :=
  Nat.le_of_lt (hp cs rest h)

/-- A part, and then what may be there. -/
theorem Shortens.then_keeps {p : List Char → Option (List Char)} {q : List Char → List Char}
    (hp : Shortens p) (hq : Keeps q) : Shortens fun cs => (p cs).bind fun rest => some (q rest) :=
  hp.bind fun cs rest h => by
    cases h
    exact hq cs

theorem Shortens.orElse {p q : List Char → Option (List Char)} (hp : Shortens p)
    (hq : Shortens q) : Shortens fun cs => (p cs).orElse fun _ => q cs := by
  intro cs rest h
  cases hpart : p cs with
  | some found =>
    simp only [hpart, Option.orElse_some, Option.some.injEq] at h
    exact h ▸ hp cs found hpart
  | none =>
    simp only [hpart, Option.orElse_none] at h
    exact hq cs rest h

theorem Keeps.comp {p q : List Char → List Char} (hp : Keeps p) (hq : Keeps q) :
    Keeps fun cs => q (p cs) :=
  fun cs => Nat.le_trans (hq _) (hp cs)

theorem one?_shortens (set : List Char) : Shortens (one? set) := by
  intro cs rest h
  cases cs with
  | nil => cases h
  | cons c cs =>
    rw [one?] at h
    split at h
    · cases h
      exact Nat.lt_succ_self _
    · cases h

theorem digits?_shortens (p : Char → Bool) (lone : Bool) : Shortens (digits? p lone) := by
  intro cs rest h
  cases cs with
  | nil => cases h
  | cons c cs =>
    rw [digits?] at h
    split at h
    · cases h
      rw [List.length_drop]
      exact Nat.lt_succ_of_le (Nat.sub_le _ _)
    · cases h

theorem decimals?_shortens : Shortens decimals? := digits?_shortens _ _

theorem long?_shortens : Shortens long? := one?_shortens _

theorem float?_shortens : Shortens float? := one?_shortens _

theorem exponent?_shortens (letters : List Char) : Shortens (exponent? letters) :=
  (one?_shortens letters).bind fun _ _ h =>
    Nat.le_trans (decimals?_shortens.le _ _ h) (keeps_optionally (one?_shortens _) _)

theorem radix?_shortens (letters : List Char) : Shortens (radix? letters) := by
  intro cs rest h
  unfold radix? at h
  split at h
  · exact Nat.lt_succ_of_lt (one?_shortens letters _ _ h)
  · cases h

theorem whole?_shortens : Shortens whole? := by
  intro cs rest h
  unfold whole? at h
  split at h
  · cases h
    exact Nat.lt_succ_self _
  · rename_i c cs _
    split at h
    · cases h
      refine Nat.lt_succ_of_le ?_
      split
      · rename_i behind
        cases hdigits : digits? Char.isDigit false behind with
        | none => exact Nat.le_refl _
        | some rest => exact Nat.le_succ_of_le ((digits?_shortens _ _).le _ _ hdigits)
      · cases hdigits : digits? Char.isDigit false cs with
        | none => exact Nat.le_refl _
        | some rest => exact (digits?_shortens _ _).le _ _ hdigits
    · cases h
  · cases h

/-- An exponent behind hexadecimal digits may start with the last of them, but not with the only
one. -/
theorem hexDigits?_shortens : Shortens hexDigits? := by
  intro cs left h
  obtain ⟨rest, hrest, hleft⟩ := Option.bind_eq_some_iff.1 h
  have hlt := digits?_shortens _ _ _ _ hrest
  have hexponent {start found : List Char} (hstart : start.length < cs.length)
      (hfound : (exponent? ['e', 'E', 'p', 'P'] start).map (optionally float?) = some found) :
      found.length < cs.length := by
    obtain ⟨behind, hbehind, rfl⟩ := Option.map_eq_some_iff.1 hfound
    exact Nat.lt_of_le_of_lt (keeps_optionally float?_shortens behind)
      (Nat.lt_trans (exponent?_shortens _ _ _ hbehind) hstart)
  cases hafter : (exponent? ['e', 'E', 'p', 'P'] rest).map (optionally float?) with
  | some found =>
    simp only [hafter, Option.orElse_some, Option.getD_some] at hleft
    cases hleft
    exact hexponent hlt hafter
  | none =>
    simp only [hafter, Option.orElse_none] at hleft
    split at hleft
    · rename_i hshorter
      split at hleft
      · cases hleft
        exact hlt
      · cases hwithin : (exponent? ['e', 'E', 'p', 'P']
            (cs.drop (cs.length - rest.length - 1))).map (optionally float?) with
        | some found =>
          simp only [hwithin, Option.getD_some] at hleft
          cases hleft
          exact hexponent hshorter hwithin
        | none =>
          simp only [hwithin, Option.getD_none] at hleft
          cases hleft
          exact hlt
    · cases hleft
      exact hlt

/-- A number of any form takes a character. -/
theorem numberForms_shorten : ∀ form ∈ numberForms, Shortens form := by
  have hlong := keeps_optionally long?_shortens
  have hfloat := keeps_optionally float?_shortens
  have hexponent (letters : List Char) := keeps_optionally (exponent?_shortens letters)
  have hhex := digits?_shortens isHexDigit true
  have hpoint := one?_shortens ['.']
  simp only [numberForms, List.forall_mem_cons, List.not_mem_nil, false_imp_iff, implies_true,
    and_true]
  refine ⟨?_, ?_, ?_, ?_, ?_, ?_, ?_, ?_, ?_, ?_, ?_⟩
  · exact whole?_shortens.then_keeps hlong
  · exact (radix?_shortens _).bind (hhex.then_keeps hlong).le
  · exact ((radix?_shortens _).orElse (one?_shortens _)).bind
      ((digits?_shortens _ _).then_keeps hlong).le
  · exact (radix?_shortens _).bind ((digits?_shortens _ _).then_keeps hlong).le
  · exact decimals?_shortens.bind (hpoint.then_keeps
      (((keeps_optionally decimals?_shortens).comp (hexponent _)).comp hfloat)).le
  · exact hpoint.bind (decimals?_shortens.then_keeps ((hexponent _).comp hfloat)).le
  · exact whole?_shortens.bind ((exponent?_shortens _).then_keeps hfloat).le
  · exact whole?_shortens.bind fun _ _ h =>
      Nat.le_trans (float?_shortens.le _ _ h) (hexponent _ _)
  · exact (radix?_shortens _).bind hexDigits?_shortens.le
  · exact (radix?_shortens _).bind (hhex.bind
      (hpoint.then_keeps ((hexponent _).comp hfloat)).le).le
  · exact (radix?_shortens _).bind fun _ _ h => by
      obtain ⟨behind, hbehind, hrest⟩ := Option.bind_eq_some_iff.1 h
      exact Nat.le_trans (hexDigits?_shortens.le _ _ hrest)
        (Nat.le_trans (hpoint.le _ _ hbehind) (keeps_optionally hhex _))

/-! ## Whole literals -/

theorem numberFront_length_le (cs : List Char) : (numberFront cs).length ≤ cs.length :=
  (List.takeWhile_prefix _).length_le

/-- The best of some lengths is one of them. -/
theorem mem_of_longest {lengths : List Nat} {best : Option Nat} {n : Nat}
    (h : lengths.foldl (fun best n => some (match best with
      | some m => if m < n then n else m
      | none => n)) best = some n) : n ∈ lengths ∨ best = some n := by
  induction lengths generalizing best with
  | nil => exact .inr h
  | cons m lengths ih =>
    rcases ih h with hmem | hbest
    · exact .inl (List.mem_cons_of_mem m hmem)
    · cases best with
      | none =>
        cases hbest
        exact .inl List.mem_cons_self
      | some k =>
        simp only at hbest
        split at hbest
        · cases hbest
          exact .inl List.mem_cons_self
        · exact .inr hbest

theorem numberLength?_measures {cs : List Char} {n : Nat} (h : numberLength? cs = some n) :
    Measures (numberFront cs) n := by
  rcases mem_of_longest h with hmem | hnone
  · obtain ⟨form, hform, hlength⟩ := List.mem_filterMap.1 hmem
    obtain ⟨rest, hrest, rfl⟩ := Option.map_eq_some_iff.1 hlength
    exact ⟨Nat.sub_pos_of_lt (numberForms_shorten form hform _ _ hrest), Nat.sub_le _ _⟩
  · cases hnone

theorem characterTail?_measures {cs : List Char} {n : Nat} (h : characterTail? cs = some n) :
    Measures cs n := by
  fun_induction characterTail? cs generalizing n with
  | case1 => cases h
  | case2 c cs ih =>
    obtain ⟨k, hk, rfl⟩ := Option.map_eq_some_iff.1 h
    exact (ih hk).succ.succ
  | case3 cs _ =>
    cases h
    exact ⟨Nat.one_pos, Nat.succ_pos _⟩
  | case4 => cases h
  | case5 c cs _ _ _ ih =>
    obtain ⟨k, hk, rfl⟩ := Option.map_eq_some_iff.1 h
    exact (ih hk).succ

theorem characterLength?_measures {cs : List Char} {n : Nat} (h : characterLength? cs = some n) :
    Measures cs n := by
  unfold characterLength? at h
  split at h
  · cases h
  · obtain ⟨k, hk, rfl⟩ := Option.map_eq_some_iff.1 h
    exact (characterTail?_measures hk).succ
  · cases h

theorem longer_measures {c : Char} {cs : List Char} {piece : Option (Nat × PieceEnd)} {n : Nat}
    {e : PieceEnd} (hpiece : ∀ n e, piece = some (n, e) → Measures cs n)
    (h : longer 1 piece = some (n, e)) : Measures (c :: cs) n := by
  obtain ⟨⟨k, _⟩, hk, heq⟩ := Option.map_eq_some_iff.1 h
  cases heq
  exact (hpiece k _ hk).succ

theorem textPieceFrom?_measures {skip : Nat} {cs : List Char} {n : Nat} {e : PieceEnd}
    (h : textPieceFrom? skip cs = some (n, e)) : Measures cs n := by
  fun_induction textPieceFrom? skip cs generalizing n e with
  | case1 => cases h
  | case2 skip c cs ih => exact longer_measures (fun _ _ => ih) h
  | case3 cs =>
    cases h
    exact ⟨Nat.one_pos, Nat.succ_pos _⟩
  | case4 cs =>
    cases h
    exact ⟨Nat.two_pos, Nat.le_add_left 2 _⟩
  | case5 cs _ ih =>
    obtain ⟨k, hk, hpiece⟩ := Option.bind_eq_some_iff.1 h
    exact longer_measures (fun _ _ => ih k) hpiece
  | case6 c cs _ _ _ ih => exact longer_measures (fun _ _ => ih) h

theorem textPiece?_measures {cs : List Char} {n : Nat} {e : PieceEnd}
    (h : textPiece? cs = some (n, e)) : Measures cs n :=
  textPieceFrom?_measures h

theorem blockPieceFrom?_measures {fresh : Bool} {skip : Nat} {cs : List Char} {n : Nat}
    {e : PieceEnd} (h : blockPieceFrom? fresh skip cs = some (n, e)) : Measures cs n := by
  fun_induction blockPieceFrom? fresh skip cs generalizing n e with
  | case1 => cases h
  | case2 fresh skip c cs ih => exact longer_measures (fun _ _ => ih) h
  | case3 =>
    cases h
    exact ⟨by decide, Nat.le_add_left 3 _⟩
  | case4 =>
    cases h
    exact ⟨Nat.two_pos, Nat.le_add_left 2 _⟩
  | case5 fresh cs _ ih => exact longer_measures (fun _ _ => ih) h
  | case6 c cs _ _ _ _ _ ih => exact longer_measures (fun _ _ => ih) h
  | case7 fresh c cs _ _ _ _ ih => exact longer_measures (fun _ _ => ih) h

theorem blockPiece?_measures {cs : List Char} {n : Nat} {e : PieceEnd}
    (h : blockPiece? cs = some (n, e)) : Measures cs n :=
  blockPieceFrom?_measures h

end Jarwright.Source
