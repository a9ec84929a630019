import Jarwright.Proofs.Machine.Growth
import Jarwright.Proofs.Store.Presence
import Mathlib.Data.List.Nodup

/-!
# Where the files of different artifacts meet

The folder of an artifact has the names of its coordinate in it, so that folders tell groups,
artifacts and versions from each other. The names of the files in it do not tell the rest: kinds and
classifiers can hold what stands between them, and the endings of sidecars and locks.

* `Clash`: two artifacts have a file in common;
* `nodup_paths_iff`, `nodup_places`: otherwise their files have six different paths, whatever the
  root, and are in six different places;
* `Meets`: a file of one artifact is in the way of the other's. In folders of the same depth this is
  a clash (`meets_iff_clash`);
* `eq_of_clash`: kinds and classifiers without dots do not clash.
-/

namespace Jarwright.Store

open Machine Machine.Disk

namespace Coordinate

variable {c k : Coordinate} {root suffix suffix' : String} {directory : Place}

/-! ## The way to an artifact -/

/-- Whether the folder of an artifact has a name for each part of the coordinate. -/
structure Ordinary (c : Coordinate) : Prop where
  group : '/' ∉ c.group.toList
  artifact : c.artifact ≠ "." ∧ c.artifact ≠ ".."
  version : c.version ≠ "." ∧ c.version ≠ ".."

/-- The names of the folders on the way to an artifact. -/
def folderNames (c : Coordinate) : List String := groupNames c.group ++ [c.artifact, c.version]

theorem wayTo_eq (c : Coordinate) (suffix : String) :
    c.wayTo suffix = c.folderNames ++ [c.fileName ++ suffix] := by
  simp [wayTo, folderNames]

theorem isName_of_ne {name : String} (hslash : '/' ∉ name.toList) (hempty : name ≠ "")
    (hdot : name ≠ ".") (hup : name ≠ "..") : Path.IsName name := by
  refine ⟨hslash, ?_, hup⟩
  have hempty : name.toList ≠ [] := fun h => hempty (String.toList_inj.1 h)
  have hdot : name.toList ≠ ['.'] := fun h => hdot (String.toList_inj.1 h)
  simp [Path.isStep, hempty, hdot]

theorem slash_not_mem_of_mem_groupNames {group name : String} (h : '/' ∉ group.toList)
    (hname : name ∈ groupNames group) : '/' ∉ name.toList := by
  obtain ⟨piece, hpiece, rfl⟩ := List.mem_map.1 hname
  rw [String.toList_ofList]
  exact fun hmem => h (Text.mem_of_mem_splitOn hpiece hmem)

theorem Ordinary.isName (h : c.Ordinary) (hc : c.WellFormed) {name : String}
    (hname : name ∈ c.folderNames) : Path.IsName name := by
  rw [folderNames, List.mem_append] at hname
  rcases hname with hname | hname
  · have hdot := dot_not_mem_of_mem_groupNames hname
    refine isName_of_ne (slash_not_mem_of_mem_groupNames h.group hname)
      (hc.groupName_ne_empty hname) ?_ ?_
    · rintro rfl
      exact hdot (by decide)
    · rintro rfl
      exact hdot (by decide)
  · have hpart {part : String} (hpart : part ∈ c.components.tail) (hdots : part ≠ "." ∧ part ≠ "..") :
        Path.IsName part :=
      isName_of_ne (hc.slash_not_mem hpart) (hc.ne_empty part (List.mem_of_mem_tail hpart))
        hdots.1 hdots.2
    obtain rfl | rfl : name = c.artifact ∨ name = c.version := by simpa using hname
    · exact hpart (by simp [components]) h.artifact
    · exact hpart (by simp [components]) h.version

theorem Ordinary.isName_wayTo (h : c.Ordinary) (hc : c.WellFormed) (hsuffix : '/' ∉ suffix.toList)
    {name : String} (hname : name ∈ c.wayTo suffix) : Path.IsName name := by
  rw [wayTo_eq, List.mem_append, List.mem_singleton] at hname
  rcases hname with hname | rfl
  · exact h.isName hc hname
  · exact hc.isName_fileName hsuffix

theorem steps_foldl_join_names {names : List String} (base : String)
    (h : ∀ name ∈ names, Path.IsName name) :
    Path.steps (names.foldl Path.join base) = Path.steps base ++ names.map String.toList := by
  have hsteps : names.flatMap Path.steps = names.map String.toList := by
    induction names with
    | nil => rfl
    | cons name names ih =>
      obtain ⟨hname, hrest⟩ := List.forall_mem_cons.1 h
      rw [List.flatMap_cons, hname.steps, ih hrest, List.map_cons, List.singleton_append]
  rw [Path.steps_foldl_join base fun name hname => (h name hname).isAbsolute, hsteps]

theorem isAbsolute_foldl_join_names {names : List String} (h : ∀ name ∈ names, Path.IsName name) :
    Path.isAbsolute (names.foldl Path.join "") = false := by
  rw [Path.isAbsolute_foldl_join, Bool.or_eq_false_iff, List.any_eq_false]
  exact ⟨rfl, fun name hname => by simp [(h name hname).isAbsolute]⟩

theorem Ordinary.steps_folder (h : c.Ordinary) (hc : c.WellFormed) (root : String) :
    Path.steps (c.folder root) = Path.steps root ++ c.folderNames.map String.toList := by
  have hnames : ∀ name ∈ c.folderNames, Path.IsName name := fun _ => h.isName hc
  rw [folder, ← folderNames, Path.steps_join root (isAbsolute_foldl_join_names hnames),
    steps_foldl_join_names "" hnames]
  rfl

theorem Ordinary.isAbsolute_folder (h : c.Ordinary) (hc : c.WellFormed) (root : String) :
    Path.isAbsolute (c.folder root) = Path.isAbsolute root := by
  rw [folder, Path.isAbsolute_join, ← folderNames,
    isAbsolute_foldl_join_names fun _ => h.isName hc, Bool.or_false]

theorem Ordinary.steps_append (h : c.Ordinary) (hc : c.WellFormed)
    (hsuffix : '/' ∉ suffix.toList) (root : String) :
    Path.steps (c.contentPath root ++ suffix)
      = Path.steps root ++ (c.wayTo suffix).map String.toList := by
  rw [hc.contentPath_append_eq_join root hsuffix,
    Path.steps_join _ (hc.isName_fileName hsuffix).isAbsolute, (hc.isName_fileName hsuffix).steps,
    h.steps_folder hc, wayTo_eq, List.map_append, List.append_assoc]
  rfl

theorem map_ofList_toList (names : List String) :
    (names.map String.toList).map String.ofList = names := by
  rw [List.map_map]
  exact List.map_id'' (fun _ => String.ofList_toList) _

/-- The files of an artifact stand where the names of its coordinate lead to from the root. -/
theorem Ordinary.place_append (h : c.Ordinary) (hc : c.WellFormed)
    (hsuffix : '/' ∉ suffix.toList) :
    place directory (c.contentPath root ++ suffix) = place directory root ++ c.wayTo suffix := by
  have hup : ['.', '.'] ∉ (c.wayTo suffix).map String.toList := by
    intro hmem
    obtain ⟨name, hname, heq⟩ := List.mem_map.1 hmem
    exact (h.isName_wayTo hc hsuffix hname).ne_up (String.toList_inj.1 heq)
  have habsolute : Path.isAbsolute (c.contentPath root ++ suffix) = Path.isAbsolute root := by
    rw [hc.contentPath_append_eq_join root hsuffix, Path.isAbsolute_join,
      (hc.isName_fileName hsuffix).isAbsolute, Bool.or_false, h.isAbsolute_folder hc]
  rw [place, h.steps_append hc hsuffix, List.foldl_append, foldl_descend hup, map_ofList_toList,
    place, habsolute]

/-! ## Clashes -/

theorem groupNames_inj {group group' : String} (h : groupNames group = groupNames group') :
    group = group' := by
  have hpieces := (List.map_inj_right fun _ _ => String.ofList_inj.1).1 h
  refine String.toList_inj.1 ?_
  rw [← Text.intercalate_splitOn '.' group.toList, hpieces, Text.intercalate_splitOn]

/-- The classifier as it stands in the name of an artifact's file. -/
def qualifier (c : Coordinate) : String :=
  match c.classifier with
  | none => ""
  | some classifier => "-" ++ classifier

/-- What stands behind the version in the name of an artifact's file. -/
def ending (c : Coordinate) : String := c.qualifier ++ "." ++ c.kind

theorem fileName_append (c : Coordinate) (suffix : String) :
    c.fileName ++ suffix = c.artifact ++ "-" ++ c.version ++ (c.ending ++ suffix) := by
  refine String.toList_inj.1 ?_
  cases hclassifier : c.classifier <;> simp [fileName, ending, qualifier, hclassifier]

/-- Whether two artifacts have a file in common: they share a folder, and the name of one file ends
like that of another, be it the content, the sidecar or the lock. -/
structure Clash (c k : Coordinate) : Prop where
  group : c.group = k.group
  artifact : c.artifact = k.artifact
  version : c.version = k.version
  ending : ∃ suffix ∈ suffixes, ∃ suffix' ∈ suffixes, c.ending ++ suffix = k.ending ++ suffix'

theorem folderNames_inj (h : c.folderNames = k.folderNames) :
    c.group = k.group ∧ c.artifact = k.artifact ∧ c.version = k.version := by
  obtain ⟨hgroup, hrest⟩ := List.append_inj' h rfl
  simp only [List.cons.injEq, and_true] at hrest
  exact ⟨groupNames_inj hgroup, hrest⟩

theorem wayTo_eq_iff : c.wayTo suffix = k.wayTo suffix'
    ↔ c.group = k.group ∧ c.artifact = k.artifact ∧ c.version = k.version
      ∧ c.ending ++ suffix = k.ending ++ suffix' := by
  rw [wayTo_eq, wayTo_eq]
  constructor
  · intro h
    obtain ⟨hfolder, hname⟩ := List.append_inj' h rfl
    obtain ⟨hgroup, hartifact, hversion⟩ := folderNames_inj hfolder
    refine ⟨hgroup, hartifact, hversion, ?_⟩
    have hname := List.singleton_inj.1 hname
    rw [fileName_append, fileName_append, hartifact, hversion] at hname
    exact (String.append_right_inj _).1 hname
  · rintro ⟨hgroup, hartifact, hversion, hending⟩
    rw [fileName_append, fileName_append, hending, folderNames, folderNames, hgroup, hartifact,
      hversion]

theorem clash_iff : c.Clash k ↔
    ∃ suffix ∈ suffixes, ∃ suffix' ∈ suffixes, c.wayTo suffix = k.wayTo suffix' := by
  constructor
  · rintro ⟨hgroup, hartifact, hversion, suffix, hsuffix, suffix', hsuffix', hending⟩
    exact ⟨suffix, hsuffix, suffix', hsuffix',
      wayTo_eq_iff.2 ⟨hgroup, hartifact, hversion, hending⟩⟩
  · rintro ⟨suffix, hsuffix, suffix', hsuffix', hway⟩
    obtain ⟨hgroup, hartifact, hversion, hending⟩ := wayTo_eq_iff.1 hway
    exact ⟨hgroup, hartifact, hversion, suffix, hsuffix, suffix', hsuffix', hending⟩

/-- The files of an artifact. -/
def paths (c : Coordinate) (root : String) : List String :=
  [c.contentPath root, c.sidecarPath root, c.lockPath root]

theorem paths_eq (c : Coordinate) (root : String) :
    c.paths root = suffixes.map (c.contentPath root ++ ·) := by
  simp [paths, suffixes, sidecarPath, lockPath]

theorem nodup_paths (c : Coordinate) (root : String) : (c.paths root).Nodup := by
  rw [paths_eq]
  refine List.Nodup.map (fun _ _ h => (String.append_right_inj _).1 h) ?_
  decide

/-- Two files have the same path, or the same place, just when the same names lead to them. -/
theorem Ordinary.place_eq_iff (h : c.Ordinary) (hc : c.WellFormed) (h' : k.Ordinary)
    (hk : k.WellFormed) (hsuffix : suffix ∈ suffixes) (hsuffix' : suffix' ∈ suffixes) :
    place directory (c.contentPath root ++ suffix) = place directory (k.contentPath root ++ suffix')
      ↔ c.wayTo suffix = k.wayTo suffix' := by
  rw [h.place_append hc (slash_not_mem_suffix hsuffix),
    h'.place_append hk (slash_not_mem_suffix hsuffix'), List.append_right_inj]

theorem Ordinary.path_eq_iff (h : c.Ordinary) (hc : c.WellFormed) (h' : k.Ordinary)
    (hk : k.WellFormed) (hsuffix : suffix ∈ suffixes) (hsuffix' : suffix' ∈ suffixes) :
    c.contentPath root ++ suffix = k.contentPath root ++ suffix'
      ↔ c.wayTo suffix = k.wayTo suffix' := by
  constructor
  · exact fun hpath =>
      (h.place_eq_iff hc h' hk hsuffix hsuffix').1 (congrArg (place []) hpath)
  · intro hway
    rw [contentPath_append, contentPath_append, relativePath_append, relativePath_append, hway]

/-- **The files of two artifacts have six different paths unless the artifacts clash.** -/
theorem Ordinary.nodup_paths_iff (h : c.Ordinary) (hc : c.WellFormed) (h' : k.Ordinary)
    (hk : k.WellFormed) : (c.paths root ++ k.paths root).Nodup ↔ ¬ c.Clash k := by
  rw [List.nodup_append, clash_iff]
  constructor
  · rintro ⟨-, -, hdisjoint⟩ ⟨suffix, hsuffix, suffix', hsuffix', hway⟩
    refine hdisjoint (c.contentPath root ++ suffix) ?_ (k.contentPath root ++ suffix') ?_
      ((h.path_eq_iff hc h' hk hsuffix hsuffix').2 hway)
    · rw [paths_eq]
      exact List.mem_map_of_mem hsuffix
    · rw [paths_eq]
      exact List.mem_map_of_mem hsuffix'
  · intro hclash
    refine ⟨nodup_paths c root, nodup_paths k root, ?_⟩
    rw [paths_eq, paths_eq]
    rintro path hpath path' hpath' rfl
    obtain ⟨suffix, hsuffix, rfl⟩ := List.mem_map.1 hpath
    obtain ⟨suffix', hsuffix', heq⟩ := List.mem_map.1 hpath'
    exact hclash ⟨suffix, hsuffix, suffix', hsuffix',
      (h.path_eq_iff hc h' hk hsuffix hsuffix').1 heq.symm⟩

/-- Then the files are in six different places, too. -/
theorem Ordinary.nodup_places (h : c.Ordinary) (hc : c.WellFormed) (h' : k.Ordinary)
    (hk : k.WellFormed) (hclash : ¬ c.Clash k) (directory : Place) :
    ((c.paths root ++ k.paths root).map (place directory)).Nodup := by
  have hpaths : ∀ path ∈ c.paths root ++ k.paths root, ∃ e : Coordinate, e.Ordinary ∧ e.WellFormed
      ∧ ∃ suffix ∈ suffixes, e.contentPath root ++ suffix = path := by
    intro path hpath
    rw [List.mem_append, paths_eq, paths_eq, List.mem_map, List.mem_map] at hpath
    rcases hpath with hpath | hpath
    · exact ⟨c, h, hc, hpath⟩
    · exact ⟨k, h', hk, hpath⟩
  refine List.Nodup.map_on ?_ ((h.nodup_paths_iff hc h' hk).2 hclash)
  intro path hpath path' hpath' hplace
  obtain ⟨e, he, hwell, suffix, hsuffix, rfl⟩ := hpaths path hpath
  obtain ⟨e', he', hwell', suffix', hsuffix', rfl⟩ := hpaths path' hpath'
  rw [he.path_eq_iff hwell he' hwell' hsuffix hsuffix']
  exact (he.place_eq_iff hwell he' hwell' hsuffix hsuffix').1 hplace

/-! ## Names without dots -/

/-- Whether neither the kind nor the classifier has a dot in it. -/
def Dotless (c : Coordinate) : Prop := ∀ part ∈ c.kind :: c.classifier.toList, '.' ∉ part.toList

theorem head?_suffix (h : suffix ∈ suffixes) :
    suffix.toList = [] ∨ suffix.toList.head? = some '.' := by
  revert suffix
  decide

theorem qualifier_inj (h : c.qualifier = k.qualifier) : c.classifier = k.classifier := by
  have hlist := congrArg String.toList h
  cases hclassifier : c.classifier <;> cases hclassifier' : k.classifier <;>
    simp_all [qualifier]

theorem Dotless.dot_not_mem_qualifier (h : c.Dotless) : '.' ∉ c.qualifier.toList := by
  unfold qualifier
  cases hclassifier : c.classifier with
  | none => simp
  | some classifier => simpa using h classifier (by simp [hclassifier])

theorem toList_ending_append (c : Coordinate) (suffix : String) : (c.ending ++ suffix).toList
    = c.qualifier.toList ++ '.' :: (c.kind.toList ++ suffix.toList) := by
  simp [ending]

/-- Kinds and classifiers without dots are told from each other by the first dots in their names, so
that an artifact clashes with no other one. -/
theorem eq_of_clash (h : c.Clash k) (hc : c.Dotless) (hk : k.Dotless) : c = k := by
  obtain ⟨hgroup, hartifact, hversion, suffix, hsuffix, suffix', hsuffix', hending⟩ := h
  have hname := congrArg String.toList hending
  rw [toList_ending_append, toList_ending_append] at hname
  have hqualifier : c.qualifier.toList = k.qualifier.toList := by
    have hfirst := congrArg (List.takeWhile (· != '.')) hname
    rwa [Text.takeWhile_append_of_not_mem hc.dot_not_mem_qualifier (.inr rfl),
      Text.takeWhile_append_of_not_mem hk.dot_not_mem_qualifier (.inr rfl)] at hfirst
  rw [hqualifier] at hname
  have hkind : c.kind.toList = k.kind.toList := by
    have hrest := congrArg (List.takeWhile (· != '.'))
      (List.cons.inj (List.append_cancel_left hname)).2
    rwa [Text.takeWhile_append_of_not_mem (hc c.kind List.mem_cons_self) (head?_suffix hsuffix),
      Text.takeWhile_append_of_not_mem (hk k.kind List.mem_cons_self) (head?_suffix hsuffix')] at hrest
  have hclassifier := qualifier_inj (String.toList_inj.1 hqualifier)
  have hkind := String.toList_inj.1 hkind
  cases c
  cases k
  simp_all

/-! ## In the way -/

/-- The files of an artifact are below every root. -/
theorem Ordinary.below (h : c.Ordinary) (hc : c.WellFormed) {path : String}
    (hpath : path ∈ c.paths root) : Path.Below root path := by
  rw [paths_eq] at hpath
  obtain ⟨suffix, hsuffix, rfl⟩ := List.mem_map.1 hpath
  refine hc.below (slash_not_mem_suffix hsuffix) ?_ h.artifact.2 h.version.2 root
  exact any_isAbsolute_eq_false_iff.2 fun name hname =>
    (h.isName hc (List.mem_append_left _ hname)).isAbsolute

/-- Whether a file of one artifact is a file of the other, or where a folder of the other is. -/
def Meets (c k : Coordinate) : Prop :=
  ∃ suffix ∈ suffixes, ∃ suffix' ∈ suffixes,
    c.wayTo suffix <+: k.wayTo suffix' ∨ k.wayTo suffix' <+: c.wayTo suffix

theorem Clash.meets (h : c.Clash k) : c.Meets k := by
  obtain ⟨suffix, hsuffix, suffix', hsuffix', hway⟩ := clash_iff.1 h
  exact ⟨suffix, hsuffix, suffix', hsuffix', .inl (hway ▸ List.prefix_refl _)⟩

/-- In folders of the same depth no file is in the way of another one. -/
theorem meets_iff_clash (h : (groupNames c.group).length = (groupNames k.group).length) :
    c.Meets k ↔ c.Clash k := by
  refine ⟨?_, Clash.meets⟩
  rintro ⟨suffix, hsuffix, suffix', hsuffix', hway⟩
  have hlength : (c.wayTo suffix).length = (k.wayTo suffix').length := by simp [wayTo, h]
  rw [clash_iff]
  refine ⟨suffix, hsuffix, suffix', hsuffix', ?_⟩
  rcases hway with hway | hway
  · exact hway.eq_of_length hlength
  · exact (hway.eq_of_length hlength.symm).symm

end Coordinate

end Jarwright.Store
