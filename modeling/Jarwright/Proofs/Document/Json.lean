import Jarwright.Document.Json
import Jarwright.Proofs.Text.ModifiedUtf8

/-!
# JSON: reading back what was written

What is written for a value is read as that value (`parse?_render`), unless it holds a number with a
fraction or a broken text, which have no written form of their own (`Whole`).

The reader is given the text of a value with something behind it, so the statements on the way say
what is left over. Only an integer has to know what that is: more digits would go on with it
(`EndsNumber`). The bound on the reader's work counts every level and every element; twice the
length of what is read is enough.
-/

namespace Jarwright.Document.Json

/-! ## Texts -/

theorem hexValue?_hexDigit {n : Nat} (h : n < 16) :
    Bytes.hexValue? (Bytes.hexDigit n) = some n := by
  have hall : ∀ m < 16, Bytes.hexValue? (Bytes.hexDigit m) = some m := by decide
  exact hall n h

section

variable {cs rest : List Char} {ns : List Nat}

theorem codesOf?_plain {c : Char} (hc : 32 ≤ c.toNat) (hquote : c ≠ '"') (hslash : c ≠ '\\')
    (h : codesOf? cs = some (ns, rest)) : codesOf? (c :: cs) = some (c.toNat :: ns, rest) := by
  have hplain : ¬ (c.toNat < 32 ∨ c = '\\') := by
    rintro (hlt | heq)
    · omega
    · exact hslash heq
  rw [codesOf?.eq_def]
  split <;> simp_all

theorem codesOf?_escaped {c : Char} {n : Nat} (hu : c ≠ 'u') (hn : escape? c = some n)
    (h : codesOf? cs = some (ns, rest)) :
    codesOf? ('\\' :: c :: cs) = some (n :: ns, rest) := by
  rw [codesOf?, hn, h]
  · rfl
  · intro _ _ _ _ _ hc
    exact absurd hc hu

theorem codesOf?_control {n : Nat} (hn : n < 32) (h : codesOf? cs = some (ns, rest)) :
    codesOf? ('\\' :: 'u' :: '0' :: '0' :: Bytes.hexDigit (n / 16) :: Bytes.hexDigit (n % 16) :: cs)
      = some (n :: ns, rest) := by
  have hzero : Bytes.hexValue? '0' = some 0 := by decide
  have hhi := hexValue?_hexDigit (by omega : n / 16 < 16)
  have hlo := hexValue?_hexDigit (by omega : n % 16 < 16)
  have hsum : ((0 * 16 + 0) * 16 + n / 16) * 16 + n % 16 = n := by omega
  rw [codesOf?, hzero, hhi, hlo, h]
  simp only [Option.bind_eq_bind, Option.bind_some, hsum]
  rfl

/-- A character is read as it was written. -/
theorem codesOf?_escapeChar (c : Char) (h : codesOf? cs = some (ns, rest)) :
    codesOf? (escapeChar c ++ cs) = some (c.toNat :: ns, rest) := by
  unfold escapeChar
  split
  · exact codesOf?_escaped (by decide) rfl h
  · exact codesOf?_escaped (by decide) rfl h
  · exact codesOf?_escaped (by decide) rfl h
  · exact codesOf?_escaped (by decide) rfl h
  · exact codesOf?_escaped (by decide) rfl h
  · exact codesOf?_escaped (by decide) rfl h
  · exact codesOf?_escaped (by decide) rfl h
  · split
    · rename_i hcontrol
      exact codesOf?_control hcontrol h
    · exact codesOf?_plain (by omega) ‹_› ‹_› h

/-- The inside of a text is read up to the quote that ends it. -/
theorem codesOf?_flatMap (cs rest : List Char) :
    codesOf? (cs.flatMap escapeChar ++ '"' :: rest) = some (cs.map Char.toNat, rest) := by
  induction cs with
  | nil => rw [List.flatMap_nil, List.nil_append, codesOf?, List.map_nil]
  | cons c cs ih =>
    rw [List.flatMap_cons, List.append_assoc, codesOf?_escapeChar c ih, List.map_cons]

end

/-- Characters are no surrogates. -/
theorem charsOf?_map (cs : List Char) : charsOf? (cs.map Char.toNat) = some cs := by
  induction cs with
  | nil => rfl
  | cons c cs ih =>
    have hc := Text.toNat_lt_or_ge c
    cases cs with
    | nil =>
      rw [List.map_singleton, charsOf?, if_neg (by omega), Char.ofNat_toNat]
    | cons d cs =>
      rw [List.map_cons] at ih ⊢
      rw [List.map_cons, charsOf?, if_neg (by omega), if_neg (by omega), ih, Option.map_some,
        Char.ofNat_toNat]

theorem textValue?_quoted (s : String) (rest : List Char) :
    textValue? (s.toList.flatMap escapeChar ++ '"' :: rest) = some (.text s, rest) := by
  rw [textValue?, codesOf?_flatMap]
  simp only [Option.bind_eq_bind, Option.bind_some, charsOf?_map, Option.map_some,
    Option.getD_some, String.ofList_toList]
  rfl

/-! ## Numbers -/

theorem valueOf_toDigits (n : Nat) : valueOf (Nat.toDigits 10 n) = n := by
  have hfold : valueOf (Nat.toDigits 10 n) = Nat.ofDigitChars 10 (Nat.toDigits 10 n) 0 := by
    rw [Nat.ofDigitChars_eq_foldl, valueOf]
    congr 1
    funext m d
    rw [Nat.mul_comm]
    rfl
  rw [hfold, Nat.ofDigitChars_ten_toDigits]

/-- A positive number is written without a zero in front. -/
theorem head?_toDigits {n : Nat} (h : 0 < n) : (Nat.toDigits 10 n).head? ≠ some '0' := by
  induction n using Nat.strongRecOn with
  | ind n ih =>
    by_cases hn : n < 10
    · have hall : ∀ m < 10, 0 < m → Nat.digitChar m ≠ '0' := by decide
      rw [Nat.toDigits_of_lt_base hn, List.head?_cons]
      exact fun heq => hall n hn h (Option.some.inj heq)
    · have hfront := ih (n / 10) (by omega) (by omega)
      obtain ⟨d, ds, hds⟩ : ∃ d ds, Nat.toDigits 10 (n / 10) = d :: ds :=
        List.exists_cons_of_ne_nil Nat.toDigits_ne_nil
      rw [Nat.toDigits_of_base_le (by omega) (by omega), hds]
      rwa [hds] at hfront

/-- What can stand behind an integer. -/
def EndsNumber (rest : List Char) : Prop :=
  ∀ c ∈ rest.head?, c.isDigit = false ∧ c ≠ '.' ∧ c ≠ 'e' ∧ c ≠ 'E'

section EndsNumber

variable {rest : List Char} (hrest : EndsNumber rest)

include hrest

theorem digits_append {cs : List Char} (hdigits : ∀ c ∈ cs, c.isDigit = true) :
    digits (cs ++ rest) = cs := by
  rw [digits, List.takeWhile_append_of_pos hdigits]
  cases rest with
  | nil => simp
  | cons c rest => simp [(hrest c rfl).1]

theorem dropWhile_isDigit_append {cs : List Char} (hdigits : ∀ c ∈ cs, c.isDigit = true) :
    (cs ++ rest).dropWhile Char.isDigit = rest := by
  rw [List.dropWhile_append_of_pos hdigits]
  cases rest with
  | nil => rfl
  | cons c rest => simp [(hrest c rfl).1]

theorem afterFraction?_eq_some : afterFraction? rest = some rest := by
  unfold afterFraction?
  split
  · exact absurd rfl (hrest '.' rfl).2.1
  · rfl

theorem afterExponent?_eq_some : afterExponent? rest = some rest := by
  unfold afterExponent?
  split
  · rename_i e cs
    obtain ⟨-, -, he, hE⟩ := hrest e rfl
    rw [if_neg (by simp [he, hE])]
  · rfl

end EndsNumber

theorem number?_toDigits (negative : Bool) {n : Nat} {rest : List Char} (hrest : EndsNumber rest)
    (hn : negative = true → n ≠ 0) :
    number? negative (Nat.toDigits 10 n ++ rest)
      = some (.integer (if negative then -(n : Int) else n), rest) := by
  have hdigits : ∀ c ∈ Nat.toDigits 10 n, c.isDigit = true := fun c hc =>
    Nat.isDigit_of_mem_toDigits (by omega) (by omega) hc
  have hzero : ¬ ((Nat.toDigits 10 n).isEmpty
      ∨ ((Nat.toDigits 10 n).head? = some '0' ∧ 1 < (Nat.toDigits 10 n).length)) := by
    rintro (hempty | ⟨hhead, hlength⟩)
    · exact Nat.toDigits_ne_nil (List.isEmpty_iff.1 hempty)
    · rcases Nat.eq_zero_or_pos n with rfl | hpos
      · simp at hlength
      · exact head?_toDigits hpos hhead
  have hinteger : ¬ (rest.length < rest.length ∨ (negative ∧ n = 0)) := by
    rintro (hlt | ⟨hnegative, hn'⟩)
    · omega
    · exact hn hnegative hn'
  unfold number?
  dsimp only
  rw [digits_append hrest hdigits, if_neg hzero, dropWhile_isDigit_append hrest hdigits,
    afterFraction?_eq_some hrest]
  simp only [Option.bind_eq_bind, Option.bind_some, afterExponent?_eq_some hrest, valueOf_toDigits,
    if_neg hinteger]
  rfl

/-! ## Blanks -/

theorem skipBlanks_of_not_blank {c : Char} (h : isBlank c = false) (cs : List Char) :
    skipBlanks (c :: cs) = c :: cs := by
  rw [skipBlanks, List.dropWhile_cons_of_neg (by simp [h])]

theorem skipBlanks_skipBlanks (cs : List Char) : skipBlanks (skipBlanks cs) = skipBlanks cs := by
  induction cs with
  | nil => rfl
  | cons c cs ih =>
    cases h : isBlank c with
    | true => rwa [skipBlanks, skipBlanks, List.dropWhile_cons_of_pos h]
    | false => rw [skipBlanks_of_not_blank h, skipBlanks_of_not_blank h]

theorem skipBlanks_newLine (level : Nat) (cs : List Char) :
    skipBlanks (newLine level ++ cs) = skipBlanks cs := by
  rw [newLine, List.cons_append, skipBlanks, List.dropWhile_cons_of_pos (by decide),
    List.dropWhile_append_of_pos, skipBlanks]
  intro c hc
  rw [(List.mem_replicate.1 hc).2]
  decide

theorem value?_skipBlanks (n : Nat) (cs : List Char) : value? n (skipBlanks cs) = value? n cs := by
  cases n with
  | zero => rfl
  | succ n => rw [value?, value?, skipBlanks_skipBlanks]

theorem elements?_skipBlanks (n : Nat) (cs : List Char) :
    elements? n (skipBlanks cs) = elements? n cs := by
  cases n with
  | zero => rfl
  | succ n => rw [elements?, elements?, value?_skipBlanks]

theorem members?_skipBlanks (n : Nat) (cs : List Char) :
    members? n (skipBlanks cs) = members? n cs := by
  cases n with
  | zero => rfl
  | succ n => rw [members?, members?, skipBlanks_skipBlanks]

/-! ## Values -/

mutual

/-- Whether a value has a written form of its own: all numbers are integers and all texts whole. -/
def Whole : Value → Prop
  | .fraction | .brokenText => False
  | .list xs => Wholes xs
  | .record fields => WholeFields fields
  | _ => True

def Wholes : List Value → Prop
  | [] => True
  | x :: xs => Whole x ∧ Wholes xs

def WholeFields : List (String × Value) → Prop
  | [] => True
  | (_, x) :: fields => Whole x ∧ WholeFields fields

end

theorem not_isBlank_of_isDigit {d : Char} (h : d.isDigit = true) : isBlank d = false := by
  cases hblank : isBlank d with
  | false => rfl
  | true =>
    simp only [isBlank, Bool.or_eq_true, beq_iff_eq] at hblank
    obtain ((rfl | rfl) | rfl) | rfl := hblank <;> cases h

theorem value?_digit {d : Char} (h : d.isDigit = true) (n : Nat) (ds : List Char) :
    value? (n + 1) (d :: ds) = number? false (d :: ds) := by
  rw [value?, skipBlanks_of_not_blank (not_isBlank_of_isDigit h)]
  split <;> first | rfl | (rename_i heq; obtain ⟨rfl, -⟩ := List.cons.inj heq; cases h)

theorem value?_minus (n : Nat) (cs : List Char) :
    value? (n + 1) ('-' :: cs) = number? true cs := by
  rw [value?, skipBlanks_of_not_blank (by decide)]
  rfl

theorem value?_list {n : Nat} {c : Char} {cs rest tail : List Char} {xs : List Value}
    (hskip : skipBlanks rest = c :: cs) (hend : c ≠ ']')
    (hxs : elements? n (c :: cs) = some (xs, tail)) :
    value? (n + 1) ('[' :: rest) = some (.list xs, tail) := by
  rw [value?, skipBlanks_of_not_blank (by decide)]
  simp only [hskip]
  split
  · rename_i heq
    exact absurd (List.cons.inj heq).1 hend
  · rw [hxs]
    rfl

theorem value?_record {n : Nat} {c : Char} {cs rest tail : List Char}
    {fields : List (String × Value)} (hskip : skipBlanks rest = c :: cs) (hend : c ≠ '\x7d')
    (hfields : members? n (c :: cs) = some (fields, tail)) :
    value? (n + 1) ('\x7b' :: rest) = some (.record fields, tail) := by
  rw [value?, skipBlanks_of_not_blank (by decide)]
  simp only [hskip]
  split
  · rename_i heq
    exact absurd (List.cons.inj heq).1 hend
  · rw [hfields]
    rfl

theorem elements?_last {n : Nat} {x : Value} {cs rest tail : List Char}
    (hx : value? n cs = some (x, rest)) (hskip : skipBlanks rest = ']' :: tail) :
    elements? (n + 1) cs = some ([x], tail) := by
  rw [elements?, hx]
  simp only [Option.bind_eq_bind, Option.bind_some, hskip]
  rfl

theorem elements?_more {n : Nat} {x : Value} {xs : List Value} {cs rest more tail : List Char}
    (hx : value? n cs = some (x, rest)) (hskip : skipBlanks rest = ',' :: more)
    (hxs : elements? n more = some (xs, tail)) : elements? (n + 1) cs = some (x :: xs, tail) := by
  rw [elements?, hx]
  simp only [Option.bind_eq_bind, Option.bind_some, hskip, hxs]
  rfl

theorem quoted_append (k : String) (cs : List Char) :
    quoted k ++ cs = '"' :: (k.toList.flatMap escapeChar ++ '"' :: cs) := by simp [quoted]

theorem members?_last {n : Nat} {k : String} {x : Value} {cs rest tail : List Char}
    (hx : value? n cs = some (x, rest)) (hskip : skipBlanks rest = '\x7d' :: tail) :
    members? (n + 1) (quoted k ++ ':' :: cs) = some ([(k, x)], tail) := by
  rw [quoted_append, members?, skipBlanks_of_not_blank (by decide)]
  simp only [codesOf?_flatMap, Option.bind_eq_bind, Option.bind_some, charsOf?_map,
    String.ofList_toList]
  rw [skipBlanks_of_not_blank (by decide)]
  simp only [hx, Option.bind_some, hskip]
  rfl

theorem members?_more {n : Nat} {k : String} {x : Value} {fields : List (String × Value)}
    {cs rest more tail : List Char} (hx : value? n cs = some (x, rest))
    (hskip : skipBlanks rest = ',' :: more) (hfields : members? n more = some (fields, tail)) :
    members? (n + 1) (quoted k ++ ':' :: cs) = some ((k, x) :: fields, tail) := by
  rw [quoted_append, members?, skipBlanks_of_not_blank (by decide)]
  simp only [codesOf?_flatMap, Option.bind_eq_bind, Option.bind_some, charsOf?_map,
    String.ofList_toList]
  rw [skipBlanks_of_not_blank (by decide)]
  simp only [hx, Option.bind_some, hskip, hfields]
  rfl

theorem value?_integer {i : Int} {rest : List Char} (hrest : EndsNumber rest) (n : Nat) :
    value? (n + 1) (integer i ++ rest) = some (.integer i, rest) := by
  unfold integer
  split
  · rename_i hnegative
    have hvalue : -(i.natAbs : Int) = i := by omega
    rw [List.cons_append, value?_minus, number?_toDigits true hrest (by omega), if_pos rfl, hvalue]
  · rename_i hnegative
    have hvalue : (i.natAbs : Int) = i := by omega
    obtain ⟨d, ds, hds⟩ : ∃ d ds, Nat.toDigits 10 i.natAbs = d :: ds :=
      List.exists_cons_of_ne_nil Nat.toDigits_ne_nil
    have hdigit : d.isDigit = true :=
      Nat.isDigit_of_mem_toDigits (by omega) (by omega) (hds ▸ List.mem_cons_self)
    have hnumber := number?_toDigits false hrest (fun h => absurd h Bool.false_ne_true)
      (n := i.natAbs)
    rw [hds, List.cons_append] at hnumber ⊢
    rw [value?_digit hdigit, hnumber, if_neg Bool.false_ne_true, hvalue]

theorem value?_quoted (n : Nat) (s : String) (rest : List Char) :
    value? (n + 1) (quoted s ++ rest) = some (.text s, rest) := by
  rw [quoted_append, value?, skipBlanks_of_not_blank (by decide)]
  exact textValue?_quoted s rest

theorem endsNumber_cons {c : Char} (h : c.isDigit = false ∧ c ≠ '.' ∧ c ≠ 'e' ∧ c ≠ 'E')
    (rest : List Char) : EndsNumber (c :: rest) := by
  intro d hd
  obtain rfl := Option.some.inj hd
  exact h

theorem value?_newLine (n level : Nat) (cs : List Char) :
    value? n (newLine level ++ cs) = value? n cs := by
  rw [← value?_skipBlanks, skipBlanks_newLine, value?_skipBlanks]

/-- What a value begins with. -/
theorem render_head {v : Value} (hv : Whole v) (level : Nat) :
    ∃ c cs, render level v = c :: cs ∧ isBlank c = false ∧ c ≠ ']' := by
  match v with
  | .null => exact ⟨'n', _, rfl, rfl, by decide⟩
  | .bool true => exact ⟨'t', _, rfl, rfl, by decide⟩
  | .bool false => exact ⟨'f', _, rfl, rfl, by decide⟩
  | .text s => exact ⟨'"', _, rfl, rfl, by decide⟩
  | .list [] => exact ⟨'[', _, rfl, rfl, by decide⟩
  | .list (_ :: _) => exact ⟨'[', _, rfl, rfl, by decide⟩
  | .record [] => exact ⟨'\x7b', _, rfl, rfl, by decide⟩
  | .record (_ :: _) => exact ⟨'\x7b', _, rfl, rfl, by decide⟩
  | .integer i =>
    rw [render, integer]
    split
    · exact ⟨'-', _, rfl, rfl, by decide⟩
    · obtain ⟨d, ds, hds⟩ : ∃ d ds, Nat.toDigits 10 i.natAbs = d :: ds :=
        List.exists_cons_of_ne_nil Nat.toDigits_ne_nil
      have hdigit : d.isDigit = true :=
        Nat.isDigit_of_mem_toDigits (by omega) (by omega) (hds ▸ List.mem_cons_self)
      refine ⟨d, ds, hds, not_isBlank_of_isDigit hdigit, ?_⟩
      rintro rfl
      cases hdigit

theorem value?_space (n : Nat) (cs : List Char) : value? n (' ' :: cs) = value? n cs := by
  have hskip : skipBlanks (' ' :: cs) = skipBlanks cs := by
    rw [skipBlanks, List.dropWhile_cons_of_pos (by decide), skipBlanks]
  rw [← value?_skipBlanks, hskip, value?_skipBlanks]

theorem members?_newLine (n level : Nat) (cs : List Char) :
    members? n (newLine level ++ cs) = members? n cs := by
  rw [← members?_skipBlanks, skipBlanks_newLine, members?_skipBlanks]

theorem length_newLine_pos (level : Nat) : 0 < (newLine level).length := by simp [newLine]

theorem renderElements_cons (level : Nat) (x y : Value) (ys : List Value) :
    renderElements level (x :: y :: ys)
      = newLine level ++ render level x ++ ',' :: renderElements level (y :: ys) := rfl

theorem renderMembers_cons (level : Nat) (k : String) (x : Value) (f : String × Value)
    (fields : List (String × Value)) :
    renderMembers level ((k, x) :: f :: fields)
      = newLine level ++ quoted k ++ ':' :: ' ' :: render level x
        ++ ',' :: renderMembers level (f :: fields) := rfl

/-- A list that has elements does not seem to end at its start. -/
theorem skipBlanks_renderElements {x : Value} (hx : Whole x) (xs : List Value) (level : Nat)
    (rest : List Char) :
    ∃ c cs, skipBlanks (renderElements level (x :: xs) ++ rest) = c :: cs ∧ c ≠ ']' := by
  obtain ⟨c, cs, hc, hblank, hend⟩ := render_head hx level
  have hfirst : ∃ more, renderElements level (x :: xs) = newLine level ++ (c :: more) := by
    cases xs with
    | nil => exact ⟨cs, by rw [renderElements, hc]⟩
    | cons y ys =>
      exact ⟨cs ++ ',' :: renderElements level (y :: ys), by rw [renderElements_cons, hc]; simp⟩
  obtain ⟨more, hmore⟩ := hfirst
  refine ⟨c, more ++ rest, ?_, hend⟩
  rw [hmore, List.append_assoc, skipBlanks_newLine, List.cons_append,
    skipBlanks_of_not_blank hblank]

theorem skipBlanks_renderMembers (k : String) (x : Value) (fields : List (String × Value))
    (level : Nat) (rest : List Char) :
    ∃ cs, skipBlanks (renderMembers level ((k, x) :: fields) ++ rest) = '"' :: cs := by
  have hfirst : ∃ more,
      renderMembers level ((k, x) :: fields) = newLine level ++ ('"' :: more) := by
    cases fields with
    | nil => exact ⟨_, by rw [renderMembers, quoted]; simp; rfl⟩
    | cons f fields => exact ⟨_, by rw [renderMembers_cons, quoted]; simp; rfl⟩
  obtain ⟨more, hmore⟩ := hfirst
  refine ⟨more ++ rest, ?_⟩
  rw [hmore, List.append_assoc, skipBlanks_newLine, List.cons_append,
    skipBlanks_of_not_blank (by decide)]

mutual

/-- A value is read up to its end. -/
theorem value?_render (v : Value) (hv : Whole v) {level n : Nat} {rest : List Char}
    (hrest : EndsNumber rest) (hn : 2 * (render level v).length < n) :
    value? n (render level v ++ rest) = some (v, rest) := by
  -- what is inside a value is shorter by its brackets, so the fuel that is left is enough for it
  obtain ⟨n, rfl⟩ : ∃ m, n = m + 1 := ⟨n - 1, by omega⟩
  match v with
  | .null => rfl
  | .bool true => rfl
  | .bool false => rfl
  | .integer i =>
    rw [render]
    exact value?_integer hrest n
  | .text s =>
    rw [render]
    exact value?_quoted n s rest
  | .list [] => rfl
  | .list (x :: xs) =>
    have hopen : render level (.list (x :: xs)) ++ rest
        = '[' :: (renderElements (level + 1) (x :: xs) ++ (newLine level ++ ']' :: rest)) := by
      simp [render]
    have hlength : 2 * (renderElements (level + 1) (x :: xs)).length < n := by
      simp only [render, List.cons_append, List.length_cons, List.length_append] at hn
      omega
    have helements := elements?_render x xs hv hlength level rest
    obtain ⟨c, cs, hc, hend⟩ :=
      skipBlanks_renderElements hv.1 xs (level + 1) (newLine level ++ ']' :: rest)
    rw [← elements?_skipBlanks, hc] at helements
    rw [hopen, value?_list hc hend helements]
  | .record [] => rfl
  | .record ((k, x) :: fields) =>
    have hopen : render level (.record ((k, x) :: fields)) ++ rest
        = '\x7b' :: (renderMembers (level + 1) ((k, x) :: fields)
          ++ (newLine level ++ '\x7d' :: rest)) := by
      simp [render]
    have hlength : 2 * (renderMembers (level + 1) ((k, x) :: fields)).length < n := by
      simp only [render, List.cons_append, List.length_cons, List.length_append] at hn
      omega
    have hmembers := members?_render k x fields hv hlength level rest
    obtain ⟨cs, hcs⟩ :=
      skipBlanks_renderMembers k x fields (level + 1) (newLine level ++ '\x7d' :: rest)
    rw [← members?_skipBlanks, hcs] at hmembers
    rw [hopen, value?_record hcs (by decide) hmembers]
termination_by n

/-- The elements of a list are read up to its end. -/
theorem elements?_render (x : Value) (xs : List Value) (hxs : Wholes (x :: xs)) {level n : Nat}
    (hn : 2 * (renderElements level (x :: xs)).length < n) (outer : Nat) (rest : List Char) :
    elements? n (renderElements level (x :: xs) ++ (newLine outer ++ ']' :: rest))
      = some (x :: xs, rest) := by
  obtain ⟨n, rfl⟩ : ∃ m, n = m + 1 := ⟨n - 1, by omega⟩
  have hline := length_newLine_pos level
  match xs with
  | [] =>
    rw [renderElements] at hn ⊢
    rw [List.length_append] at hn
    have hend : EndsNumber (newLine outer ++ ']' :: rest) := endsNumber_cons (by decide) _
    have hx := value?_render x hxs.1 hend (by omega : 2 * (render level x).length < n)
    rw [← value?_newLine n level] at hx
    rw [List.append_assoc]
    exact elements?_last hx (by rw [skipBlanks_newLine, skipBlanks_of_not_blank (by decide)])
  | y :: ys =>
    rw [renderElements_cons] at hn ⊢
    rw [List.length_append, List.length_append, List.length_cons] at hn
    have hys : 2 * (renderElements level (y :: ys)).length < n := by omega
    have hrest := elements?_render y ys hxs.2 hys outer rest
    have hx := value?_render x hxs.1 (endsNumber_cons (by decide : _ ∧ ',' ≠ '.' ∧ _)
      (renderElements level (y :: ys) ++ (newLine outer ++ ']' :: rest)))
      (by omega : 2 * (render level x).length < n)
    rw [← value?_newLine n level] at hx
    rw [List.append_assoc, List.append_assoc, List.cons_append]
    exact elements?_more hx (skipBlanks_of_not_blank (by decide) _) hrest
termination_by n

/-- The members of a record are read up to its end. -/
theorem members?_render (k : String) (x : Value) (fields : List (String × Value))
    (hfields : WholeFields ((k, x) :: fields)) {level n : Nat}
    (hn : 2 * (renderMembers level ((k, x) :: fields)).length < n) (outer : Nat)
    (rest : List Char) :
    members? n (renderMembers level ((k, x) :: fields) ++ (newLine outer ++ '\x7d' :: rest))
      = some ((k, x) :: fields, rest) := by
  obtain ⟨n, rfl⟩ : ∃ m, n = m + 1 := ⟨n - 1, by omega⟩
  have hline := length_newLine_pos level
  match fields with
  | [] =>
    rw [renderMembers] at hn ⊢
    rw [List.length_append, List.length_append, List.length_cons, List.length_cons] at hn
    have hend : EndsNumber (newLine outer ++ '\x7d' :: rest) := endsNumber_cons (by decide) _
    have hx := value?_render x hfields.1 hend (by omega : 2 * (render level x).length < n)
    rw [← value?_space] at hx
    rw [List.append_assoc, List.append_assoc, List.cons_append, List.cons_append, members?_newLine]
    exact members?_last hx (by rw [skipBlanks_newLine, skipBlanks_of_not_blank (by decide)])
  | (l, y) :: fields =>
    rw [renderMembers_cons] at hn ⊢
    rw [List.length_append, List.length_append, List.length_append, List.length_cons,
      List.length_cons, List.length_cons] at hn
    have hmore : 2 * (renderMembers level ((l, y) :: fields)).length < n := by omega
    have hrest := members?_render l y fields hfields.2 hmore outer rest
    have hx := value?_render x hfields.1 (endsNumber_cons (by decide : _ ∧ ',' ≠ '.' ∧ _)
      (renderMembers level ((l, y) :: fields) ++ (newLine outer ++ '\x7d' :: rest)))
      (by omega : 2 * (render level x).length < n)
    rw [← value?_space] at hx
    rw [List.append_assoc, List.append_assoc, List.append_assoc, List.cons_append, List.cons_append,
      List.cons_append, members?_newLine]
    exact members?_more hx (skipBlanks_of_not_blank (by decide) _) hrest
termination_by n

end

/-- A value is read from what was written for it, with blanks behind it. -/
theorem parse?_render {v : Value} (hv : Whole v) (level : Nat) {blanks : List Char}
    (hblanks : ∀ c ∈ blanks, isBlank c = true) :
    parse? (render level v ++ blanks) = some v := by
  have hend : EndsNumber blanks := by
    intro c hc
    have hblank := hblanks c (List.mem_of_mem_head? hc)
    simp only [isBlank, Bool.or_eq_true, beq_iff_eq] at hblank
    obtain ((rfl | rfl) | rfl) | rfl := hblank <;> decide
  have hskip : (blanks ++ []).dropWhile isBlank = [] := List.dropWhile_append_of_pos hblanks
  rw [List.append_nil] at hskip
  have hlength : 2 * (render level v).length < 2 * (render level v ++ blanks).length + 1 := by
    rw [List.length_append]
    omega
  rw [parse?, value?_render v hv hend hlength]
  simp only [Option.bind_eq_bind, Option.bind_some, skipBlanks, hskip]
  rfl

end Jarwright.Document.Json
