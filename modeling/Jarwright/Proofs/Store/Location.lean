import Jarwright.Proofs.Path
import Jarwright.Proofs.Store.Coordinate
import Jarwright.Store.Location

/-!
# Whether artifacts stay below the root

Every name on the way to an artifact is put behind the ones before it, but a name that begins at the
root puts itself in their place. Reading a coordinate refuses separators in all components except
the group, and a step up in none, so that an artifact may lie anywhere.

* `paths_below_iff`: the files of a coordinate stay below every root just when no name of its group
  begins at the root and neither the artifact nor the version is a step up;
* `not_paths_below`: coordinates that are read and lead elsewhere.
-/

namespace Jarwright.Store.Coordinate

open Jarwright.Path

variable {c : Coordinate} {s : String}

/-! ## The names on the way -/

/-- The names on the way to a file next to the artifact. -/
def wayTo (c : Coordinate) (suffix : String) : List String :=
  groupNames c.group ++ [c.artifact, c.version, c.fileName ++ suffix]

theorem fileName_ne_empty (c : Coordinate) (suffix : String) : c.fileName ++ suffix ≠ "" := by
  intro h
  have hlength := congrArg String.length h
  simp [fileName] at hlength

theorem relativePath_append (c : Coordinate) (suffix : String) :
    c.relativePath ++ suffix = (c.wayTo suffix).foldl join "" := by
  have hname := fileName_ne_empty c ""
  rw [String.append_empty] at hname
  rw [relativePath, wayTo, List.foldl_append, List.foldl_append]
  exact join_append _ suffix hname

theorem WellFormed.slash_not_mem_fileName (hc : c.WellFormed) : '/' ∉ c.fileName.toList := by
  have hartifact : '/' ∉ c.artifact.toList := hc.slash_not_mem (by simp [components])
  have hversion : '/' ∉ c.version.toList := hc.slash_not_mem (by simp [components])
  have hkind : '/' ∉ c.kind.toList := hc.slash_not_mem (by simp [components])
  cases hclassifier : c.classifier with
  | none => simp [fileName, hclassifier, hartifact, hversion, hkind]
  | some classifier =>
    have hlast : '/' ∉ classifier.toList := hc.slash_not_mem (by simp [components, hclassifier])
    simp [fileName, hclassifier, hartifact, hversion, hkind, hlast]

theorem dash_mem_fileName (c : Coordinate) (suffix : String) :
    '-' ∈ (c.fileName ++ suffix).toList := by
  simp [fileName, String.toList_intercalate]

/-- What stands next to the artifact has a name: there is a dash in it, so that it is no step up. -/
theorem WellFormed.isName_fileName {suffix : String} (hc : c.WellFormed)
    (hsuffix : '/' ∉ suffix.toList) : IsName (c.fileName ++ suffix) where
  slash := by simp [hc.slash_not_mem_fileName, hsuffix]
  step := by
    have hdash := dash_mem_fileName c suffix
    rw [isStep, Bool.and_eq_true, bne_iff_ne, bne_iff_ne]
    constructor <;> intro h <;> simp [h] at hdash
  ne_up := by
    intro h
    have hdash := dash_mem_fileName c suffix
    rw [h] at hdash
    simp at hdash

/-- No name of a group leads upwards, for there is no dot in it. -/
theorem up_not_mem_steps_groupName {group name : String} (h : name ∈ groupNames group) :
    "..".toList ∉ steps name := by
  intro hup
  have hdot : '.' ∈ name.toList :=
    Text.mem_of_mem_splitOn (List.mem_filter.1 hup).1 (by simp)
  exact dot_not_mem_of_mem_groupNames h hdot

theorem up_mem_steps_iff {part : String} (h : '/' ∉ part.toList) :
    "..".toList ∈ steps part ↔ part = ".." := by
  rw [steps, segments_of_not_mem h, List.mem_filter, List.mem_singleton, String.toList_inj]
  constructor
  · exact fun hpart => hpart.1.symm
  · rintro rfl
    exact ⟨rfl, rfl⟩

/-! ## Where they lead -/

/-- A step up on the way is the artifact or the version. -/
theorem WellFormed.up_mem_iff {suffix : String} (hc : c.WellFormed)
    (hsuffix : '/' ∉ suffix.toList) :
    (∃ name ∈ c.wayTo suffix, "..".toList ∈ steps name)
      ↔ c.artifact = ".." ∨ c.version = ".." := by
  have hartifact := up_mem_steps_iff
    (hc.slash_not_mem (by simp [components] : c.artifact ∈ c.components.tail))
  have hversion := up_mem_steps_iff
    (hc.slash_not_mem (by simp [components] : c.version ∈ c.components.tail))
  constructor
  · rintro ⟨name, hname, hup⟩
    rw [wayTo, List.mem_append] at hname
    rcases hname with hname | hname
    · exact absurd hup (up_not_mem_steps_groupName hname)
    · obtain rfl | rfl | rfl : name = c.artifact ∨ name = c.version ∨ name = c.fileName ++ suffix :=
        by simpa using hname
      · exact .inl (hartifact.1 hup)
      · exact .inr (hversion.1 hup)
      · have hname := hc.isName_fileName hsuffix
        rw [hname.steps, List.mem_singleton] at hup
        exact absurd (String.toList_inj.1 hup.symm) hname.ne_up
  · rintro (h | h)
    · exact ⟨c.artifact, by simp [wayTo], hartifact.2 h⟩
    · exact ⟨c.version, by simp [wayTo], hversion.2 h⟩

/-- A name on the way that begins at the root belongs to the group. -/
theorem WellFormed.any_isAbsolute {suffix : String} (hc : c.WellFormed)
    (hsuffix : '/' ∉ suffix.toList) :
    (c.wayTo suffix).any isAbsolute = (groupNames c.group).any isAbsolute := by
  have hartifact : isAbsolute c.artifact = false :=
    isAbsolute_of_slash_not_mem (hc.slash_not_mem (by simp [components]))
  have hversion : isAbsolute c.version = false :=
    isAbsolute_of_slash_not_mem (hc.slash_not_mem (by simp [components]))
  have hname : isAbsolute (c.fileName ++ suffix) = false := (hc.isName_fileName hsuffix).isAbsolute
  simp [wayTo, hartifact, hversion, hname]

/-- Unless a name of the group begins at the root, a file next to the artifact goes on from the root
of the repository with its own names. -/
theorem WellFormed.components_append {suffix : String} (hc : c.WellFormed)
    (hsuffix : '/' ∉ suffix.toList) (hgroup : (groupNames c.group).any isAbsolute = false) :
    isAbsolute (c.relativePath ++ suffix) = false ∧ leadingDot (c.relativePath ++ suffix) = []
      ∧ steps (c.relativePath ++ suffix) = (c.wayTo suffix).flatMap steps := by
  have hrelative : ∀ name ∈ c.wayTo suffix, isAbsolute name = false := by
    have hany := hc.any_isAbsolute hsuffix
    rw [hgroup, List.any_eq_false] at hany
    exact fun name hname => Bool.eq_false_iff.2 (hany name hname)
  rw [relativePath_append]
  refine ⟨?_, ?_, steps_foldl_join "" hrelative⟩
  · rw [isAbsolute_foldl_join, hc.any_isAbsolute hsuffix, hgroup]
    rfl
  · obtain ⟨name, names, hnames⟩ := List.exists_cons_of_ne_nil (groupNames_ne_nil c.group)
    have hmem : name ∈ groupNames c.group := by simp [hnames]
    have hfirst : join "" name = name := by
      rw [join_of_relative "" (hrelative name (List.mem_append_left _ hmem))]
      exact String.empty_append
    have hdot : leadingDot name = [] := by
      refine if_neg fun hhead => dot_not_mem_of_mem_groupNames hmem ?_
      exact Text.mem_of_mem_splitOn (List.mem_of_mem_head? hhead) (by simp)
    have hway : c.wayTo suffix
        = name :: (names ++ [c.artifact, c.version, c.fileName ++ suffix]) := by
      rw [wayTo, hnames, List.cons_append]
    rw [hway] at hrelative ⊢
    rw [List.foldl_cons, hfirst,
      leadingDot_foldl_join (hc.groupName_ne_empty hmem) fun name hname =>
        hrelative name (List.mem_cons_of_mem _ hname), hdot]

theorem contentPath_append (c : Coordinate) (root suffix : String) :
    c.contentPath root ++ suffix = join root (c.relativePath ++ suffix) := by
  have hname := fileName_ne_empty c ""
  rw [String.append_empty] at hname
  refine join_append root suffix ?_
  rw [relativePath, List.foldl_append]
  exact join_ne_empty (.inr hname)

theorem WellFormed.below {suffix : String} (hc : c.WellFormed) (hsuffix : '/' ∉ suffix.toList)
    (hgroup : (groupNames c.group).any isAbsolute = false) (hartifact : c.artifact ≠ "..")
    (hversion : c.version ≠ "..") (root : String) :
    Below root (c.contentPath root ++ suffix) := by
  obtain ⟨habsolute, hdot, hsteps⟩ := hc.components_append hsuffix hgroup
  rw [contentPath_append]
  refine below_join root habsolute hdot ?_ ?_
  · rw [hsteps, wayTo, List.flatMap_append]
    simp [(hc.isName_fileName hsuffix).steps]
  · rw [mem_components_iff (by decide), hsteps, List.mem_flatMap, hc.up_mem_iff hsuffix]
    exact not_or.2 ⟨hartifact, hversion⟩

/-- Whether no component leads away from the root of a repository. -/
def LeadsDown (c : Coordinate) : Prop :=
  (∀ name ∈ groupNames c.group, isAbsolute name = false) ∧ c.artifact ≠ ".." ∧ c.version ≠ ".."

theorem any_isAbsolute_eq_false_iff {names : List String} :
    names.any isAbsolute = false ↔ ∀ name ∈ names, isAbsolute name = false := by
  simp [List.any_eq_false]

theorem contentPath_empty (c : Coordinate) : c.contentPath "" = c.relativePath := by
  rw [contentPath, join_eq]
  split
  · rfl
  · exact String.empty_append

theorem WellFormed.leadsDown_iff (hc : c.WellFormed) :
    isAbsolute c.relativePath = false ∧ ".." ∉ Path.components c.relativePath ↔ c.LeadsDown := by
  have hempty : '/' ∉ "".toList := by simp
  constructor
  · rintro ⟨hrelative, hup⟩
    have hgroup : (groupNames c.group).any isAbsolute = false := by
      rw [← hc.any_isAbsolute hempty, ← Bool.false_or (List.any ..)]
      rw [← String.append_empty (s := c.relativePath), relativePath_append,
        isAbsolute_foldl_join] at hrelative
      exact hrelative
    obtain ⟨-, -, hsteps⟩ := hc.components_append hempty hgroup
    rw [String.append_empty] at hsteps
    rw [mem_components_iff (by decide), hsteps, List.mem_flatMap, hc.up_mem_iff hempty,
      not_or] at hup
    exact ⟨any_isAbsolute_eq_false_iff.1 hgroup, hup⟩
  · rintro ⟨hgroup, hartifact, hversion⟩
    have hbelow := hc.below hempty (any_isAbsolute_eq_false_iff.2 hgroup) hartifact hversion ""
    rw [String.append_empty, contentPath_empty] at hbelow
    exact hbelow.of_empty

/-- **The files of an artifact stay below every root just when no name of its group begins at the
root and neither the artifact nor the version is a step up**, which is to say that the path seen
from the root of the repository is relative and has no step up. -/
theorem paths_below_iff (h : parse s = .ok c) :
    ((∀ root, Below root (c.contentPath root) ∧ Below root (c.sidecarPath root)
        ∧ Below root (c.lockPath root)) ↔ c.LeadsDown)
    ∧ (isAbsolute c.relativePath = false ∧ ".." ∉ Path.components c.relativePath
      ↔ c.LeadsDown) := by
  obtain ⟨-, hc⟩ := parse_eq_ok_iff.1 h
  refine ⟨⟨fun hbelow => ?_, ?_⟩, hc.leadsDown_iff⟩
  · obtain ⟨hcontent, -⟩ := hbelow ""
    rw [contentPath_empty] at hcontent
    exact hc.leadsDown_iff.1 hcontent.of_empty
  · rintro ⟨hgroup, hartifact, hversion⟩ root
    have hbelow {suffix : String} (hsuffix : '/' ∉ suffix.toList) :=
      hc.below hsuffix (any_isAbsolute_eq_false_iff.2 hgroup) hartifact hversion root
    have hcontent := hbelow (by decide : '/' ∉ "".toList)
    rw [String.append_empty] at hcontent
    exact ⟨hcontent, hbelow (by decide), hbelow (by decide)⟩

/-- A coordinate whose components have dots and dashes in them, but lead down. -/
theorem paths_below_iff_server :
    parse "net.minecraft:server:1.12.2:jar:vanilla"
        = .ok ⟨"net.minecraft", "server", "1.12.2", "jar", some "vanilla"⟩
      ∧ ∀ root, Below root
        (contentPath ⟨"net.minecraft", "server", "1.12.2", "jar", some "vanilla"⟩ root) := by
  have hparse : parse "net.minecraft:server:1.12.2:jar:vanilla"
      = .ok ⟨"net.minecraft", "server", "1.12.2", "jar", some "vanilla"⟩ := by rfl
  refine ⟨hparse, fun root => ?_⟩
  have hdown : LeadsDown ⟨"net.minecraft", "server", "1.12.2", "jar", some "vanilla"⟩ := by
    unfold LeadsDown
    decide
  exact ((paths_below_iff hparse).1.2 hdown root).1

/-- Coordinates that are read and lead elsewhere: a group that begins at the root takes the place of
the root of the repository, and an artifact or a version that is a step up leads out of it. -/
theorem not_paths_below :
    (∃ c, parse "/abs:b:c:d" = .ok c ∧ isAbsolute c.relativePath = true
      ∧ c.contentPath "/repository" = "/abs/b/c/b-c.d")
    ∧ (∃ c, parse "a:..:..:d" = .ok c ∧ ".." ∈ Path.components c.relativePath
      ∧ c.contentPath "/repository" = "/repository/a/../../..-...d")
    ∧ ¬ ∀ s c, parse s = .ok c →
      isAbsolute c.relativePath = false ∧ ".." ∉ Path.components c.relativePath
        ∧ ∀ root, Below root (c.contentPath root) ∧ Below root (c.sidecarPath root)
          ∧ Below root (c.lockPath root) := by
  have hroot : parse "/abs:b:c:d" = .ok ⟨"/abs", "b", "c", "d", none⟩ := by rfl
  have hup : parse "a:..:..:d" = .ok ⟨"a", "..", "..", "d", none⟩ := by rfl
  have habsolute : isAbsolute (relativePath ⟨"/abs", "b", "c", "d", none⟩) = true := by decide
  refine ⟨⟨_, hroot, habsolute, by decide⟩, ⟨_, hup, by decide, by decide⟩, fun hall => ?_⟩
  obtain ⟨hrelative, -⟩ := hall _ _ hroot
  rw [habsolute] at hrelative
  cases hrelative

end Jarwright.Store.Coordinate
