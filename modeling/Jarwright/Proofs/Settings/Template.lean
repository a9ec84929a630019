import Jarwright.Proofs.Text.Splitting
import Jarwright.Settings.Template
import Mathlib.Data.List.Infix
import Mathlib.Data.List.Perm.Basic

/-!
# Templates are filled in at once

A template is a list of pieces, which are texts and holes with names. Values are filled in one after
the other in a text that may have other values in it already. As no value has an opening brace, what
has been filled in is never taken for a placeholder: each step turns a template into a template with
fewer holes (`replaceAll_writtenAll`). So all holes are filled at once, in whatever order the values
are given (`expand_fills`).
-/

namespace Jarwright.Settings

variable {old new cs back : List Char} {name value : String}

/-! ## Occurrences -/

/-- The rest of an occurrence is skipped. -/
theorem replaceFrom_append (old new front back : List Char) :
    replaceFrom old new front.length (front ++ back) = replaceFrom old new 0 back := by
  induction front with
  | nil => rfl
  | cons c front ih =>
    rw [List.cons_append, List.length_cons, replaceFrom]
    exact ih

theorem replaceAll_append_self (hne : old ≠ []) :
    replaceAll old new (old ++ back) = new ++ replaceAll old new back := by
  obtain ⟨c, old', rfl⟩ := List.exists_cons_of_ne_nil hne
  have hstart : Text.startsWith (c :: old') (c :: (old' ++ back)) = true := by
    rw [Text.startsWith, ← List.cons_append, Text.dropFront?_append]
    rfl
  rw [replaceAll, List.cons_append, replaceFrom, if_pos hstart, List.length_cons,
    Nat.add_sub_cancel, replaceFrom_append]
  rfl

theorem replaceAll_cons {c : Char} (h : ¬ old <+: c :: cs) :
    replaceAll old new (c :: cs) = c :: replaceAll old new cs := by
  have hstart : ¬ Text.startsWith old (c :: cs) = true := by
    rw [Text.startsWith, Option.isSome_iff_exists]
    rintro ⟨rest, hrest⟩
    exact h ⟨rest, (Text.dropFront?_eq_some.1 hrest).symm⟩
  rw [replaceAll, replaceFrom, if_neg hstart]
  rfl

/-- No placeholder begins where there is no opening brace. -/
theorem replaceAll_append {front : List Char} (h : '\x7b' ∉ front) (back : List Char) :
    replaceAll (placeholder name) new (front ++ back)
      = front ++ replaceAll (placeholder name) new back := by
  induction front with
  | nil => rfl
  | cons c front ih =>
    rw [List.mem_cons, not_or] at h
    rw [List.cons_append, replaceAll_cons, ih h.2, List.cons_append]
    rintro ⟨rest, hrest⟩
    exact h.1 (List.cons.inj hrest).1

/-- The placeholders of two names without closing braces differ before either ends. -/
theorem replaceAll_placeholder_append {name' : String} (hne : name' ≠ name)
    (hname : '\x7d' ∉ name.toList) (hopen : '\x7b' ∉ name'.toList) (hclose : '\x7d' ∉ name'.toList)
    (back : List Char) :
    replaceAll (placeholder name) new (placeholder name' ++ back)
      = placeholder name' ++ replaceAll (placeholder name) new back := by
  have hother : ¬ placeholder name <+: '\x7b' :: (name'.toList ++ ['\x7d'] ++ back) := by
    rintro ⟨rest, hrest⟩
    have hnames : name.toList ++ '\x7d' :: rest = name'.toList ++ '\x7d' :: back := by
      simpa [placeholder] using hrest
    have htake := congrArg (List.takeWhile (· != '\x7d')) hnames
    rw [Text.takeWhile_append_of_not_mem hname (.inr rfl),
      Text.takeWhile_append_of_not_mem hclose (.inr rfl)] at htake
    exact hne (String.toList_inj.1 htake.symm)
  have hrest : '\x7b' ∉ name'.toList ++ ['\x7d'] := by simp [hopen]
  have hcons : placeholder name' = '\x7b' :: (name'.toList ++ ['\x7d']) := rfl
  rw [hcons, List.cons_append, replaceAll_cons hother, replaceAll_append hrest, List.cons_append]

/-! ## Pieces -/

/-- A part of a template. -/
inductive Piece where
  | text (cs : List Char)
  | hole (name : String)

namespace Piece

/-- A hole is written as a placeholder. -/
def written : Piece → List Char
  | text cs => cs
  | hole name => placeholder name

/-- Whether placeholders stand only where holes are. -/
def Plain : Piece → Prop
  | text cs => '\x7b' ∉ cs
  | hole name => '\x7b' ∉ name.toList ∧ '\x7d' ∉ name.toList

/-- A piece with a value in the hole of a name. -/
def fill (name value : String) : Piece → Piece
  | text cs => text cs
  | hole name' => if name' = name then text value.toList else hole name'

/-- A piece with all values of a list in their holes. -/
def filled (values : List (String × String)) : Piece → Piece
  | text cs => text cs
  | hole name => match values.lookup name with
    | some value => text value.toList
    | none => hole name

/-- The text of a template. -/
def writtenAll (ps : List Piece) : List Char := ps.flatMap written

theorem writtenAll_cons (p : Piece) (ps : List Piece) :
    writtenAll (p :: ps) = p.written ++ writtenAll ps := List.flatMap_cons

theorem Plain.fill {p : Piece} (hp : p.Plain) (hvalue : '\x7b' ∉ value.toList) :
    (p.fill name value).Plain := by
  cases p with
  | text cs => exact hp
  | hole name' =>
    rw [Piece.fill]
    split
    · exact hvalue
    · exact hp

/-- Putting a value in the place of a placeholder fills the holes of its name and does nothing else
to a template. -/
theorem replaceAll_writtenAll {ps : List Piece} (hps : ∀ p ∈ ps, p.Plain)
    (hname : '\x7d' ∉ name.toList) :
    replaceAll (placeholder name) value.toList (writtenAll ps)
      = writtenAll (ps.map (fill name value)) := by
  induction ps with
  | nil => rfl
  | cons p ps ih =>
    obtain ⟨hp, hrest⟩ := List.forall_mem_cons.1 hps
    rw [List.map_cons, writtenAll_cons, writtenAll_cons, ← ih hrest]
    cases p with
    | text cs => exact replaceAll_append hp _
    | hole name' =>
      rw [fill]
      split
      · rename_i heq
        rw [heq]
        exact replaceAll_append_self (List.cons_ne_nil _ _)
      · rename_i hne
        exact replaceAll_placeholder_append hne hname hp.1 hp.2 _

/-- Holes that are filled once are filled for good: the first value of a name counts. -/
theorem filled_cons (p : Piece) (values : List (String × String)) :
    p.filled ((name, value) :: values) = (p.fill name value).filled values := by
  cases p with
  | text cs => rfl
  | hole name' =>
    by_cases hname : name' = name
    · subst hname
      simp only [fill, filled, List.lookup_cons_self, ↓reduceIte]
    · rw [fill, if_neg hname, filled, filled, List.lookup_cons, beq_false_of_ne hname]

end Piece

open Piece

/-- Filling in values one after the other fills all holes. -/
theorem foldl_replaceAll {values : List (String × String)} {ps : List Piece}
    (hps : ∀ p ∈ ps, p.Plain) (hnames : ∀ e ∈ values, '\x7d' ∉ e.1.toList)
    (hvalues : ∀ e ∈ values, '\x7b' ∉ e.2.toList) :
    values.foldl (fun text e => replaceAll (placeholder e.1) e.2.toList text) (writtenAll ps)
      = writtenAll (ps.map (filled values)) := by
  induction values generalizing ps with
  | nil =>
    have hnone (p : Piece) : p.filled [] = p := by cases p <;> rfl
    rw [List.foldl_nil, List.map_congr_left fun p _ => hnone p, List.map_id']
  | cons e values ih =>
    obtain ⟨hname, hnames⟩ := List.forall_mem_cons.1 hnames
    obtain ⟨hvalue, hvalues⟩ := List.forall_mem_cons.1 hvalues
    have hfill : ∀ p ∈ ps.map (fill e.1 e.2), p.Plain :=
      List.forall_mem_map.2 fun p hp => (hps p hp).fill hvalue
    rw [List.foldl_cons, replaceAll_writtenAll hps hname, ih hfill hnames hvalues, List.map_map]
    exact congrArg _ (List.map_congr_left fun p _ => (filled_cons p values).symm)

/-- Of values whose names differ each is found, whatever their order. -/
theorem lookup_eq_some_iff_mem {values : List (String × String)}
    (hkeys : (values.map Prod.fst).Nodup) :
    values.lookup name = some value ↔ (name, value) ∈ values := by
  induction values with
  | nil => simp
  | cons e values ih =>
    rw [List.map_cons, List.nodup_cons] at hkeys
    rw [List.lookup_cons, List.mem_cons]
    by_cases hname : name = e.1
    · have hother : (name, value) ∉ values := fun hmem =>
        hkeys.1 (hname ▸ List.mem_map_of_mem (f := Prod.fst) hmem)
      simp [hname, Prod.ext_iff, eq_comm, hname ▸ hother]
    · simp [beq_false_of_ne hname, ih hkeys.2, Prod.ext_iff, hname]

theorem lookup_perm {values values' : List (String × String)}
    (hkeys : (values.map Prod.fst).Nodup) (hperm : values'.Perm values) (name : String) :
    values'.lookup name = values.lookup name := by
  have hkeys' : (values'.map Prod.fst).Nodup := (hperm.map Prod.fst).nodup_iff.2 hkeys
  refine Option.ext fun value => ?_
  rw [lookup_eq_some_iff_mem hkeys, lookup_eq_some_iff_mem hkeys', hperm.mem_iff]

/-- In a template of holes and texts without opening braces, filling in values puts each value in
the holes of its name and leaves the other holes as they are, all at once and in any order, if the
names are different and without closing braces and no value has an opening brace. -/
theorem expand_fills {template : String} {ps : List Piece} {values : List (String × String)}
    (htemplate : template.toList = writtenAll ps) (hps : ∀ p ∈ ps, p.Plain)
    (hkeys : (values.map Prod.fst).Nodup)
    (hnames : ∀ e ∈ values, '\x7d' ∉ e.1.toList)
    (hvalues : ∀ e ∈ values, '\x7b' ∉ e.2.toList) :
    expand template values = String.ofList (writtenAll (ps.map (filled values)))
      ∧ ∀ values' : List (String × String), values'.Perm values →
        expand template values' = expand template values := by
  have hexpand {values' : List (String × String)} (hperm : values'.Perm values) :
      expand template values' = String.ofList (writtenAll (ps.map (filled values'))) := by
    rw [expand, htemplate]
    exact congrArg _ (foldl_replaceAll hps (fun e he => hnames e (hperm.mem_iff.1 he))
      fun e he => hvalues e (hperm.mem_iff.1 he))
  refine ⟨hexpand (.refl _), fun values' hperm => ?_⟩
  rw [hexpand hperm, hexpand (.refl _)]
  have hfilled (p : Piece) : p.filled values' = p.filled values := by
    cases p with
    | text cs => rfl
    | hole name => rw [filled, filled, lookup_perm hkeys hperm]
  rw [List.map_congr_left fun p _ => hfilled p]

/-! ## A template with holes next to each other -/

/-- Holes for `a`, `ab`, `c` and `a` again, with a dash between the second and the third. -/
def samplePieces : List Piece := [hole "a", hole "ab", text ['-'], hole "c", hole "a"]

/-- Values that end like placeholders, and a name at the start of another one. -/
def sampleValues : List (String × String) := [("a", "b\x7d"), ("ab", "\x7d")]

theorem plain_samplePieces : ∀ p ∈ samplePieces, p.Plain := by
  simp [samplePieces, Plain]

theorem expand_fills_sample :
    expand "\x7ba\x7d\x7bab\x7d-\x7bc\x7d\x7ba\x7d" sampleValues = "b\x7d\x7d-\x7bc\x7db\x7d"
      ∧ expand "\x7ba\x7d\x7bab\x7d-\x7bc\x7d\x7ba\x7d" sampleValues.reverse
        = "b\x7d\x7d-\x7bc\x7db\x7d" := by
  have htemplate :
      "\x7ba\x7d\x7bab\x7d-\x7bc\x7d\x7ba\x7d".toList = writtenAll samplePieces := by decide
  obtain ⟨hfilled, hperm⟩ := expand_fills htemplate plain_samplePieces
    (by decide : (sampleValues.map Prod.fst).Nodup) (by decide) (by decide)
  have hresult : String.ofList (writtenAll (samplePieces.map (filled sampleValues)))
      = "b\x7d\x7d-\x7bc\x7db\x7d" := by decide
  exact ⟨hfilled.trans hresult,
    (hperm _ (List.reverse_perm sampleValues)).trans (hfilled.trans hresult)⟩

end Jarwright.Settings
