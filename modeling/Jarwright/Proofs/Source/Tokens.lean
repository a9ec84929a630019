import Jarwright.Proofs.Source.Literals

/-!
# Where tokens stand

Reading a file leaves out separators and comments, and nothing else: every token is a stretch of the
file that begins with a character that is not blank, and the stretches follow each other.

* `Token.StandsIn` says that a token is what the file shows at its place, `InPlace` that a list of
  tokens is in the order of the file;
* `tokenAt?_measures`: a token takes a character at least and begins with no blank, whatever Unicode
  counts as one;
* `inPlace_tokenizeFrom` carries `Reached` from step to step, and `inPlace_tokenize?` is the result.
-/

namespace Jarwright.Source

/-- A character that is not blank stands there. -/
def ShowsAt (source : List Char) (i : Nat) : Prop :=
  ∃ c, source[i]? = some c ∧ Text.isBlank c = false

/-! ## Characters that start a token -/

/-- The blank characters. -/
def blanks : List Char :=
  ([0x9, 0xa, 0xb, 0xc, 0xd, 0x20, 0x85, 0xa0, 0x1680, 0x2000, 0x2001, 0x2002, 0x2003, 0x2004,
    0x2005, 0x2006, 0x2007, 0x2008, 0x2009, 0x200a, 0x2028, 0x2029, 0x202f, 0x205f,
    0x3000] : List Nat).map Char.ofNat

theorem mem_blanks {c : Char} (h : Text.isBlank c = true) : c ∈ blanks := by
  refine List.mem_map.2 ⟨c.toNat, ?_, Char.ofNat_toNat c⟩
  simp only [Text.isBlank, Bool.or_eq_true, Bool.and_eq_true, decide_eq_true_eq, beq_iff_eq] at h
  simp only [List.mem_cons, List.not_mem_nil, or_false]
  omega

/-- What no blank character is, is not blank. -/
theorem isBlank_of_barred {p : Char → Bool} (hp : blanks.all (fun c => !p c) = true) {c : Char}
    (h : p c = true) : Text.isBlank c = false := by
  refine Bool.eq_false_iff.2 fun hblank => ?_
  have hc := List.all_eq_true.1 hp c (mem_blanks hblank)
  rw [h] at hc
  cases hc

theorem isBlank_of_startsIdentifier {c : Char} (h : startsIdentifier c = true) :
    Text.isBlank c = false :=
  isBlank_of_barred (by decide +kernel) h

theorem showsAt_of_numberLength? {cs : List Char} {n : Nat} (h : numberLength? cs = some n) :
    ShowsAt cs 0 := by
  have hfront := Nat.lt_of_lt_of_le (numberLength?_measures h).pos
    (numberLength?_measures h).le_length
  cases cs with
  | nil => cases hfront
  | cons c cs =>
    rw [numberFront, List.takeWhile_cons] at hfront
    split at hfront
    · rename_i hc
      exact ⟨c, rfl, isBlank_of_barred
        (p := fun c => c.isAlphanum || c == '_' || c == '.' || c == '+' || c == '-') (by decide) hc⟩
    · cases hfront

/-- Symbols of several characters hold no blank at their start. -/
theorem exists_of_mem_longSymbols {symbol : List Char} (h : symbol ∈ longSymbols) :
    ∃ c cs, symbol = c :: cs ∧ Text.isBlank c = false := by
  have hall : longSymbols.all (fun symbol => symbol.head?.any (!Text.isBlank ·)) = true := by decide
  have hsymbol := List.all_eq_true.1 hall symbol h
  cases symbol with
  | nil => cases hsymbol
  | cons c cs => exact ⟨c, cs, rfl, by simpa using hsymbol⟩

theorem symbolAt?_measures {cs symbol : List Char} (h : symbolAt? cs = some symbol) :
    Measures cs symbol.length ∧ ShowsAt cs 0 := by
  unfold symbolAt? at h
  split at h
  · rename_i found hfound
    cases h
    have hfront := List.find?_some (p := fun s => (Text.dropFront? s cs).isSome) hfound
    obtain ⟨rest, hrest⟩ := Option.isSome_iff_exists.1 hfront
    obtain ⟨c, others, rfl, hblank⟩ :=
      exists_of_mem_longSymbols (List.mem_of_find?_eq_some hfound)
    rw [Text.eq_append_of_dropFront? hrest]
    refine ⟨⟨Nat.succ_pos _, ?_⟩, c, rfl, hblank⟩
    rw [List.length_append]
    exact Nat.le_add_right _ _
  · split at h
    · rename_i c cs _
      split at h
      · rename_i hshort
        cases h
        exact ⟨⟨Nat.one_pos, Nat.succ_pos _⟩, c, rfl,
          isBlank_of_barred (p := shortSymbols.contains) (by decide) hshort⟩
      · cases h
    · cases h

theorem pieceToken_measures {block first : Bool} {before k : Nat} {holes holes' : List Hole}
    {cs : List Char} {piece : Option (Nat × PieceEnd)} {kind : TokenKind} (front : List Char)
    (hpiece : ∀ n e, piece = some (n, e) → Measures cs n) (hfront : front.length = before)
    (h : pieceToken block first before holes piece = some (kind, k, holes')) :
    Measures (front ++ cs) k := by
  obtain ⟨⟨n, e⟩, hn, hk⟩ := Option.map_eq_some_iff.1 h
  have hmeasures := hpiece n e hn
  have hk' : n + before = k := by cases e <;> cases hk <;> rfl
  subst hk'
  refine ⟨Nat.lt_of_lt_of_le hmeasures.pos (Nat.le_add_right _ _), ?_⟩
  rw [List.length_append, hfront, Nat.add_comm]
  exact Nat.add_le_add_left hmeasures.le_length _

theorem pieceBehind?_measures {block : Bool} {cs : List Char} {n : Nat} {e : PieceEnd}
    (h : pieceBehind? block cs = some (n, e)) : Measures cs n := by
  cases block
  · exact textPiece?_measures h
  · exact blockPiece?_measures h

/-- **A token takes a character at least, and begins with one that is not blank.** -/
theorem tokenAt?_measures {holes holes' : List Hole} {cs : List Char} {kind : TokenKind} {k : Nat}
    (h : tokenAt? holes cs = some (kind, k, holes')) :
    Measures cs k ∧ ShowsAt cs 0 := by
  unfold tokenAt? at h
  split at h
  · exact ⟨pieceToken_measures ['"', '"', '"'] (fun _ _ => blockPiece?_measures) rfl h,
      '"', rfl, rfl⟩
  · exact ⟨pieceToken_measures ['"'] (fun _ _ => textPiece?_measures) rfl h,
      '"', rfl, rfl⟩
  · exact ⟨pieceToken_measures ['\x7d'] (fun _ _ => pieceBehind?_measures) rfl h,
      '\x7d', rfl, rfl⟩
  · obtain ⟨n, hn, heq⟩ := Option.map_eq_some_iff.1 h
    cases heq
    exact ⟨characterLength?_measures hn, '\'', rfl, rfl⟩
  · split at h
    · rename_i n hn
      cases h
      obtain ⟨hpos, hle⟩ := numberLength?_measures hn
      exact ⟨⟨hpos, Nat.le_trans hle (numberFront_length_le _)⟩, showsAt_of_numberLength? hn⟩
    · split at h
      · rename_i c rest _ _ _ _ _
        split at h
        · rename_i hstarts
          cases h
          refine ⟨⟨Nat.lt_of_lt_of_le Nat.one_pos (Nat.le_add_right _ _), ?_⟩, c, rfl,
            isBlank_of_startsIdentifier hstarts⟩
          rw [List.length_cons, Nat.add_comm]
          exact Nat.add_le_add_right (List.takeWhile_prefix _).length_le 1
        · obtain ⟨symbol, hsymbol, heq⟩ := Option.map_eq_some_iff.1 h
          cases heq
          exact symbolAt?_measures hsymbol
      · cases h

/-! ## Tokens in a file -/

/-- The token is what the file shows at its place. -/
structure Token.StandsIn (source : List Char) (t : Token) : Prop where
  start_lt : t.start < t.stop
  stop_le : t.stop ≤ source.length
  text : t.text.toList = (source.drop t.start).take (t.stop - t.start)
  lead_le : t.lead ≤ t.start
  shows : ShowsAt source t.start

/-- The tokens stand in the file one behind the other, comments included. -/
structure InPlace (source : List Char) (ts : List Token) : Prop where
  stands : ∀ t ∈ ts, t.StandsIn source
  ordered : ts.Pairwise fun t t' => t.stop ≤ t'.lead

/-- What is known when a reader of the file has come so far, with `done` behind it. -/
structure Reached (source : List Char) (done : List Token) (p : Place) (rest : List Char) :
    Prop where
  rest_eq : source.drop p.offset = rest
  comment_le : p.comment.getD p.offset ≤ p.offset
  done_le : ∀ t ∈ done, t.stop ≤ p.comment.getD p.offset
  inPlace : InPlace source done.reverse

section Reached

variable {source : List Char} {done : List Token} {p : Place} {c : Char} {cs : List Char}

/-- What follows a number of characters. -/
theorem Reached.drop (h : Reached source done p cs) (k : Nat) :
    source.drop (p.offset + k) = cs.drop k := by
  rw [← h.rest_eq, List.drop_drop]

/-- A separator is passed over. -/
theorem Reached.separator (h : Reached source done p (c :: cs)) :
    Reached source done { p with offset := p.offset + 1 } cs := by
  have hle : p.comment.getD p.offset ≤ p.comment.getD (p.offset + 1) := by
    cases p.comment with
    | none => exact Nat.le_succ _
    | some k => exact Nat.le_refl _
  refine ⟨h.drop 1, ?_, fun t ht => Nat.le_trans (h.done_le t ht) hle, h.inPlace⟩
  have hcomment := h.comment_le
  cases hc : p.comment with
  | none => exact Nat.le_refl _
  | some k =>
    rw [hc] at hcomment
    exact Nat.le_succ_of_le hcomment

/-- A comment is passed over, but the first one of several is remembered. -/
theorem Reached.comment (h : Reached source done p cs) (k : Nat) :
    Reached source done
      { p with offset := p.offset + k, comment := some (p.comment.getD p.offset) } (cs.drop k) :=
  ⟨h.drop k, Nat.le_trans h.comment_le (Nat.le_add_right _ _), h.done_le, h.inPlace⟩

theorem Reached.standsIn (h : Reached source done p cs) {k : Nat} (hk : Measures cs k)
    (hshows : ShowsAt cs 0) (kind : TokenKind) (glued : Bool) :
    Token.StandsIn source ⟨kind, String.ofList (cs.take k), p.offset, p.offset + k,
      p.comment.getD p.offset, glued⟩ where
  start_lt := Nat.lt_add_of_pos_right hk.pos
  stop_le := by
    have hle := hk.le_length
    have hpos := hk.pos
    rw [← h.rest_eq, List.length_drop] at hle
    show p.offset + k ≤ source.length
    omega
  text := by rw [h.rest_eq, Nat.add_sub_cancel_left, String.toList_ofList]
  lead_le := h.comment_le
  shows := by
    obtain ⟨c, hc, hblank⟩ := hshows
    rw [← h.rest_eq, List.getElem?_drop] at hc
    exact ⟨c, hc, hblank⟩

/-- A token is added behind those before. -/
theorem Reached.token (h : Reached source done p cs) {k : Nat} (hk : Measures cs k)
    (hshows : ShowsAt cs 0) (kind : TokenKind) (glued : Bool) (holes : List Hole) :
    Reached source (⟨kind, String.ofList (cs.take k), p.offset, p.offset + k,
        p.comment.getD p.offset, glued⟩ :: done)
      ⟨p.offset + k, none, p.offset + k, holes⟩ (cs.drop k) where
  rest_eq := h.drop k
  comment_le := Nat.le_refl _
  done_le t ht := by
    rcases List.mem_cons.1 ht with rfl | ht
    · exact Nat.le_refl _
    · exact Nat.le_trans (h.done_le t ht) (Nat.le_trans h.comment_le (Nat.le_add_right _ _))
  inPlace := by
    rw [List.reverse_cons]
    refine ⟨fun t ht => ?_, List.pairwise_append.2 ⟨h.inPlace.ordered, List.pairwise_singleton _ _,
      fun t ht t' ht' => ?_⟩⟩
    · rcases List.mem_append.1 ht with ht | ht
      · exact h.inPlace.stands t ht
      · exact List.mem_singleton.1 ht ▸ h.standsIn hk hshows kind glued
    · rw [List.mem_singleton.1 ht']
      exact h.done_le t (List.mem_reverse.1 ht)

end Reached

/-- Wherever a reader of the file has come, the tokens it returns at the end are in place. -/
theorem inPlace_tokenizeFrom {source : List Char} {done ts : List Token} {p : Place} {n : Nat}
    {cs : List Char} (h : Reached source done p cs) (hts : tokenizeFrom done p n cs = some ts) :
    InPlace source ts := by
  fun_induction tokenizeFrom done p n cs with
  | case1 =>
    cases hts
    exact h.inPlace
  | case2 => cases hts
  | case3 done p n c cs _ ih => exact ih h.separator hts
  | case4 done p n c cs _ k _ _ ih => exact ih (h.comment k) hts
  | case5 => cases hts
  | case6 done p n c cs _ _ kind k holes htoken _ _ ih =>
    obtain ⟨hk, hshows⟩ := tokenAt?_measures htoken
    exact ih (h.token hk hshows _ _ _) hts

/-- **The tokens of a file stand in it one behind the other.** -/
theorem inPlace_tokenize? {source : List Char} {ts : List Token} (h : tokenize? source = some ts) :
    InPlace source ts := by
  have hstart (p : Place) (rest : List Char) (hrest : source.drop p.offset = rest)
      (hcomment : p.comment = none) : Reached source [] p rest :=
    ⟨hrest, hcomment ▸ Nat.le_refl _, nofun, nofun, .nil⟩
  unfold tokenize? at h
  split at h
  · cases h
  · split at h
    · exact inPlace_tokenizeFrom (hstart _ _ rfl rfl) h
    · exact inPlace_tokenizeFrom (hstart _ _ rfl rfl) h

end Jarwright.Source
