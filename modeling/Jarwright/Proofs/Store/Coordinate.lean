import Jarwright.Proofs.Text.Splitting
import Jarwright.Store.Coordinate

/-!
# The coordinates that texts spell

A text spells a coordinate just when it is the written form of a well-formed one
(`parse_eq_ok_iff`), so a coordinate that was read is written as it was.
-/

namespace Jarwright.Store.Coordinate

variable {c : Coordinate} {s : String}

/-- Whether reading the components back gives them again. -/
structure WellFormed (c : Coordinate) : Prop where
  ne_empty : ∀ part ∈ c.components, part ≠ ""
  colon : ∀ part ∈ c.components, ':' ∉ part.toList
  group : isMalformedGroup c.group = false
  separator : ∀ part ∈ c.components.tail, hasSeparator part = false

/-- The components of a text, as they stand between its colons. -/
def parts (s : String) : List String := (Text.splitOn ':' s.toList).map String.ofList

theorem colon_not_mem_of_mem_parts {part : String} (h : part ∈ parts s) : ':' ∉ part.toList := by
  obtain ⟨piece, hpiece, rfl⟩ := List.mem_map.1 h
  rw [String.toList_ofList]
  exact Text.not_mem_of_mem_splitOn hpiece

theorem intercalate_parts (s : String) : ":".intercalate (parts s) = s := by
  have hpieces : (parts s).map String.toList = Text.splitOn ':' s.toList := by
    rw [parts, List.map_map]
    exact List.map_id'' (fun _ => String.toList_ofList) _
  refine String.toList_inj.1 ?_
  rw [String.toList_intercalate, hpieces]
  exact Text.intercalate_splitOn ':' s.toList

theorem parts_intercalate {texts : List String} (hne : texts ≠ [])
    (h : ∀ part ∈ texts, ':' ∉ part.toList) : parts (":".intercalate texts) = texts := by
  have hsplit : Text.splitOn ':' ([':'].intercalate (texts.map String.toList))
      = texts.map String.toList := by
    refine Text.splitOn_intercalate (by simpa using hne) fun piece hpiece => ?_
    obtain ⟨part, hpart, rfl⟩ := List.mem_map.1 hpiece
    exact h part hpart
  rw [parts, String.toList_intercalate, show ":".toList = [':'] from rfl, hsplit, List.map_map]
  exact List.map_id'' (fun _ => String.ofList_toList) _

theorem parse_of_parts {group artifact version kind : String} {rest : List String}
    (h : parts s = group :: artifact :: version :: kind :: rest) :
    parse s
      = if 1 < rest.length then .error .wrongCount
        else if (parts s).any (·.isEmpty) then .error .emptyComponent
        else if isMalformedGroup group then .error .malformedGroup
        else if (artifact :: version :: kind :: rest).any hasSeparator then .error .separator
        else .ok ⟨group, artifact, version, kind, rest.head?⟩ := by
  rw [parse, ← parts, h]

/-- What a text spells is well formed, and has that text. -/
theorem text_eq_of_parse (h : parse s = .ok c) : s = c.text ∧ c.WellFormed := by
  have hparts : ∃ group artifact version kind rest,
      parts s = group :: artifact :: version :: kind :: rest := by
    rw [parse, ← parts] at h
    split at h
    · exact ⟨_, _, _, _, _, ‹_›⟩
    · cases h
  obtain ⟨group, artifact, version, kind, rest, hparts⟩ := hparts
  rw [parse_of_parts hparts] at h
  split at h
  · cases h
  split at h
  · cases h
  split at h
  · cases h
  split at h
  · cases h
  rename_i hcount hempty hgroup hseparator
  obtain rfl := Except.ok.inj h
  -- at most one component follows, so that all of them are kept
  have hcomponents : parts s
      = components ⟨group, artifact, version, kind, rest.head?⟩ := by
    rw [hparts]
    match rest, hcount with
    | [], _ => rfl
    | [_], _ => rfl
    | _ :: _ :: _, hcount => exact absurd (by simp) hcount
  refine ⟨by rw [text, ← hcomponents, intercalate_parts], ?_, ?_, ?_, ?_⟩
  · rintro part hpart rfl
    rw [← hcomponents] at hpart
    exact hempty (List.any_eq_true.2 ⟨_, hpart, rfl⟩)
  · intro part hpart
    exact colon_not_mem_of_mem_parts (hcomponents ▸ hpart)
  · simpa using hgroup
  · intro part hpart
    rw [← hcomponents, hparts, List.tail_cons] at hpart
    simpa using fun hsep => hseparator (List.any_eq_true.2 ⟨part, hpart, hsep⟩)

theorem WellFormed.parse_text (hwell : c.WellFormed) : parse c.text = .ok c := by
  have hparts : parts c.text
      = c.group :: c.artifact :: c.version :: c.kind :: c.classifier.toList :=
    parts_intercalate (by simp [components]) hwell.colon
  have hempty : (parts c.text).any (·.isEmpty) = false := by
    rw [hparts, List.any_eq_false]
    intro part hpart
    simpa using hwell.ne_empty part hpart
  have hseparator :
      (c.artifact :: c.version :: c.kind :: c.classifier.toList).any hasSeparator = false := by
    rw [List.any_eq_false]
    intro part hpart
    rw [hwell.separator part hpart]
    exact Bool.false_ne_true
  have hcount : ¬ 1 < c.classifier.toList.length := by cases c.classifier <;> simp
  have hclassifier : c.classifier.toList.head? = c.classifier := by cases c.classifier <;> rfl
  rw [parse_of_parts hparts, if_neg hcount, hempty, hwell.group, hseparator, hclassifier]
  rfl

/-- A text spells a coordinate just when it is the written form of a well-formed one. -/
theorem parse_eq_ok_iff : parse s = .ok c ↔ s = c.text ∧ c.WellFormed := by
  refine ⟨text_eq_of_parse, ?_⟩
  rintro ⟨rfl, hwell⟩
  exact hwell.parse_text

/-- What is read from the written form of a coordinate that was read. -/
theorem parse_text (h : parse s = .ok c) : parse c.text = .ok c :=
  (text_eq_of_parse h).2.parse_text

/-! ## Groups -/

theorem dot_not_mem_of_mem_groupNames {group name : String} (h : name ∈ groupNames group) :
    '.' ∉ name.toList := by
  obtain ⟨piece, hpiece, rfl⟩ := List.mem_map.1 h
  rw [String.toList_ofList]
  exact Text.not_mem_of_mem_splitOn hpiece

theorem groupNames_ne_nil (group : String) : groupNames group ≠ [] := by
  rw [groupNames, ne_eq, List.map_eq_nil_iff]
  exact Text.splitOn_ne_nil

theorem WellFormed.groupName_ne_empty {name : String} (hc : c.WellFormed)
    (hname : name ∈ groupNames c.group) : name ≠ "" := by
  rintro rfl
  have hgroup := List.any_eq_false.1 hc.group _ hname
  exact hgroup rfl

theorem WellFormed.slash_not_mem {part : String} (hc : c.WellFormed)
    (hpart : part ∈ c.components.tail) : '/' ∉ part.toList := by
  intro hslash
  have hseparator := List.any_eq_false.1 (hc.separator part hpart) _ hslash
  exact hseparator rfl

end Jarwright.Store.Coordinate
