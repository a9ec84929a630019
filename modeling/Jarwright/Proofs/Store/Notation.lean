import Jarwright.Proofs.Store.Coordinate
import Mathlib.Data.List.Basic

/-!
# The written form of coordinates

Reading and writing coordinates are inverse to each other (`parse_text_inverse`), so that the texts
that are accepted name different coordinates. These texts have four or five components, none of them
empty, a group without empty names and steps up, and no separators of paths behind the group
(`exists_parse_iff`).
-/

namespace Jarwright.Store.Coordinate

variable {c : Coordinate} {s : String}

/-! ## What the rules ask for -/

theorem isMalformedGroup_eq_false_iff {group : String} :
    isMalformedGroup group = false ↔ ∀ name ∈ groupNames group, name ≠ "" ∧ name ≠ ".." := by
  rw [isMalformedGroup, List.any_eq_false]
  simp

theorem hasSeparator_eq_false_iff {component : String} :
    hasSeparator component = false ↔ '/' ∉ component.toList ∧ '\\' ∉ component.toList := by
  rw [hasSeparator, List.any_eq_false]
  constructor
  · intro h
    exact ⟨fun hmem => by simpa using h _ hmem, fun hmem => by simpa using h _ hmem⟩
  · rintro ⟨hslash, hback⟩ x hx
    have hne : x ≠ '/' := fun heq => hslash (heq ▸ hx)
    have hne' : x ≠ '\\' := fun heq => hback (heq ▸ hx)
    simp [hne, hne']

/-- The rules in terms of names and characters. -/
theorem wellFormed_iff_rules :
    c.WellFormed ↔ (∀ part ∈ c.components, part ≠ "" ∧ ':' ∉ part.toList)
      ∧ (∀ name ∈ groupNames c.group, name ≠ "" ∧ name ≠ "..")
      ∧ ∀ part ∈ c.components.tail, '/' ∉ part.toList ∧ '\\' ∉ part.toList := by
  constructor
  · intro h
    exact ⟨fun part hpart => ⟨h.ne_empty part hpart, h.colon part hpart⟩,
      isMalformedGroup_eq_false_iff.1 h.group,
      fun part hpart => hasSeparator_eq_false_iff.1 (h.separator part hpart)⟩
  · rintro ⟨hparts, hgroup, hseparator⟩
    exact ⟨fun part hpart => (hparts part hpart).1, fun part hpart => (hparts part hpart).2,
      isMalformedGroup_eq_false_iff.2 hgroup,
      fun part hpart => hasSeparator_eq_false_iff.2 (hseparator part hpart)⟩

/-! ## Texts that are accepted -/

/-- Whether a text keeps to the rules. -/
structure Spelling (s : String) : Prop where
  count : (parts s).length = 4 ∨ (parts s).length = 5
  ne_empty : ∀ part ∈ parts s, part ≠ ""
  group : ∀ name ∈ groupNames ((parts s).headD ""), name ≠ "" ∧ name ≠ ".."
  separator : ∀ part ∈ (parts s).tail, '/' ∉ part.toList ∧ '\\' ∉ part.toList

/-- Four or five texts are the components of a coordinate. -/
theorem exists_components {texts : List String} (h : texts.length = 4 ∨ texts.length = 5) :
    ∃ c : Coordinate, c.components = texts ∧ c.group = texts.headD "" := by
  obtain ⟨group, rest, rfl⟩ : ∃ group rest, texts = group :: rest :=
    List.exists_cons_of_length_pos (by omega)
  obtain ⟨artifact, rest, rfl⟩ : ∃ artifact rest', rest = artifact :: rest' :=
    List.exists_cons_of_length_pos (by simp only [List.length_cons] at h; omega)
  rcases h with h | h
  · obtain ⟨version, kind, rfl⟩ := List.length_eq_two.1 (by simpa using h)
    exact ⟨⟨group, artifact, version, kind, none⟩, rfl, rfl⟩
  · obtain ⟨version, kind, classifier, rfl⟩ := List.length_eq_three.1 (by simpa using h)
    exact ⟨⟨group, artifact, version, kind, some classifier⟩, rfl, rfl⟩

theorem parts_text (h : c.WellFormed) : parts c.text = c.components :=
  parts_intercalate (by simp [components]) h.colon

theorem length_components (c : Coordinate) :
    c.components.length = 4 ∨ c.components.length = 5 := by
  cases hclassifier : c.classifier <;> simp [components, hclassifier]

theorem spelling_text (h : c.WellFormed) : Spelling c.text := by
  have hparts := parts_text h
  obtain ⟨hne, hgroup, hseparator⟩ := wellFormed_iff_rules.1 h
  refine ⟨?_, ?_, ?_, ?_⟩
  · rw [hparts]
    exact length_components c
  · rw [hparts]
    exact fun part hpart => (hne part hpart).1
  · rw [hparts]
    exact hgroup
  · rw [hparts]
    exact hseparator

theorem Spelling.exists_wellFormed (h : Spelling s) :
    ∃ c : Coordinate, c.text = s ∧ c.WellFormed := by
  obtain ⟨c, hcomponents, hgroup⟩ := exists_components h.count
  refine ⟨c, ?_, wellFormed_iff_rules.2 ⟨?_, ?_, ?_⟩⟩
  · rw [text, hcomponents, intercalate_parts]
  · rw [hcomponents]
    exact fun part hpart => ⟨h.ne_empty part hpart, colon_not_mem_of_mem_parts hpart⟩
  · rw [hgroup]
    exact h.group
  · rw [hcomponents]
    exact h.separator

/-- The texts that are accepted are those that keep to the rules. -/
theorem exists_parse_iff : (∃ c, parse s = .ok c) ↔ Spelling s := by
  constructor
  · rintro ⟨c, hc⟩
    obtain ⟨rfl, hwell⟩ := parse_eq_ok_iff.1 hc
    exact spelling_text hwell
  · intro h
    obtain ⟨c, rfl, hwell⟩ := h.exists_wellFormed
    exact ⟨c, hwell.parse_text⟩

/-- Reading and writing are inverse to each other: a text that is accepted is the written form of
what it spells, and a coordinate whose components keep to the rules is read from its written form.
No other text is accepted, and different texts spell different coordinates. -/
theorem parse_text_inverse :
    (∀ (s : String) (c : Coordinate), parse s = .ok c → c.text = s)
      ∧ (∀ c : Coordinate, (∀ part ∈ c.components, part ≠ "" ∧ ':' ∉ part.toList) →
        (∀ name ∈ groupNames c.group, name ≠ "" ∧ name ≠ "..") →
        (∀ part ∈ c.components.tail, '/' ∉ part.toList ∧ '\\' ∉ part.toList) →
        parse c.text = .ok c)
      ∧ (∀ s : String, (∃ c, parse s = .ok c) ↔ Spelling s)
      ∧ (∀ s : String, (∀ c : Coordinate, c.WellFormed → c.text ≠ s) →
        ∃ flaw, parse s = .error flaw)
      ∧ ∀ (s t : String) (c d : Coordinate), parse s = .ok c → parse t = .ok d →
        (c = d ↔ s = t) := by
  refine ⟨fun s c hc => (text_eq_of_parse hc).1.symm, fun c hparts hgroup hseparator => ?_,
    fun s => exists_parse_iff, fun s hs => ?_, fun s t c d hc hd => ⟨?_, ?_⟩⟩
  · exact (wellFormed_iff_rules.2 ⟨hparts, hgroup, hseparator⟩).parse_text
  · cases hparse : parse s with
    | error flaw => exact ⟨flaw, rfl⟩
    | ok c =>
      obtain ⟨htext, hwell⟩ := text_eq_of_parse hparse
      exact absurd htext.symm (hs c hwell)
  · rintro rfl
    rw [(text_eq_of_parse hc).1, (text_eq_of_parse hd).1]
  · rintro rfl
    exact Except.ok.inj (hc.symm.trans hd)

theorem parse_text_inverse_classified :
    parse "net.minecraft:server:1.12.2:jar:vanilla"
        = .ok ⟨"net.minecraft", "server", "1.12.2", "jar", some "vanilla"⟩
      ∧ Spelling "net.minecraft:server:1.12.2:jar:vanilla"
      ∧ text ⟨"net.minecraft", "server", "1.12.2", "jar", some "vanilla"⟩
        = "net.minecraft:server:1.12.2:jar:vanilla" := by
  obtain ⟨htext, hparse, hspelling, -⟩ := parse_text_inverse
  have hread : parse "net.minecraft:server:1.12.2:jar:vanilla"
      = .ok ⟨"net.minecraft", "server", "1.12.2", "jar", some "vanilla"⟩ :=
    hparse ⟨"net.minecraft", "server", "1.12.2", "jar", some "vanilla"⟩ (by decide) (by decide)
      (by decide)
  exact ⟨hread, (hspelling _).1 ⟨_, hread⟩, htext _ _ hread⟩

end Jarwright.Store.Coordinate
