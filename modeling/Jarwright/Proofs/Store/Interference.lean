import Jarwright.Proofs.Machine.Locality
import Jarwright.Proofs.Store.Collision
import Jarwright.Proofs.Store.Consistency

/-!
# Artifacts that leave each other alone

Storing and removing an artifact touches its three files and makes the folders on the way to them
(`touches_store`, `touches_remove`). Whatever is done to one artifact, another one is read as before
unless a file of one is in the way of the other's.

* `artifacts_independent`: when files are different, and what is answered then;
* `not_artifacts_independent`: different artifacts that share a file, and one that is lost by that.
-/

namespace Jarwright.Store

open Machine Machine.Disk Machine.Action Coordinate

variable {r : Repository} {c k : Coordinate} {s : Surroundings} {w w' : World} {d d' : Disk}
  {directory : Place} {suffix source : String} {description : Option String}

/-! ## What a call touches -/

/-- The change of the files of an artifact, and of folders on the way to them that are made. -/
def Coordinate.touching (c : Coordinate) (r : Repository) (directory : Place) : Change :=
  .both .steady (.within (filePlaces r c directory) (way directory (c.folder r.root)))

section Touching

variable {folder name path : String} {files ways : List Place}

theorem within_takeLock (hname : Path.IsName name)
    (hfile : place s.directory (Path.join folder name) ∈ files)
    (hways : ∀ q ∈ way s.directory folder, q ∈ ways) :
    Moves (.within files ways) s (takeLock (Path.join folder name)) fun _ => True := by
  obtain ⟨parent, hparent, habsolute, hsteps⟩ :=
    Path.parent?_of_fileName? (hname.fileName?_join folder)
  have hsame := upwards_of_steps hname habsolute hsteps
  unfold takeLock
  rw [hparent]
  refine .bind (within_makeDirectories fun q hq => hways q (hsame.way_subset hq)) fun _ _ => ?_
  refine .bind (.look (Q := fun _ => True) fun _ => trivial) fun found _ => ?_
  split
  · exact .pure trivial
  · exact within_createFile hfile

theorem within_removeIfThere (hfile : place s.directory path ∈ files) :
    Moves (.within files ways) s (Repository.removeIfThere path) fun _ => True := by
  refine .bind (.attempt (R := fun _ => True) (within_removeFile hfile) fun _ => trivial) ?_
  rintro result -
  split
  · exact .pure trivial
  · exact .pure trivial
  · exact .throw

end Touching

section Calls

variable (hc : c.WellFormed)
include hc

theorem place_mem_filePlaces (hsuffix : suffix ∈ suffixes) :
    place directory (Path.join (c.folder r.root) (c.fileName ++ suffix))
      ∈ filePlaces r c directory := by
  rw [filePlaces_eq, ← hc.contentPath_append_eq_join r.root (slash_not_mem_suffix hsuffix)]
  exact List.mem_map_of_mem hsuffix

theorem touches_takeLock (hsuffix : suffix ∈ suffixes) :
    Moves (c.touching r s.directory) s (takeLock (c.contentPath r.root ++ suffix))
      fun _ => True := by
  rw [hc.contentPath_append_eq_join r.root (slash_not_mem_suffix hsuffix)]
  exact steady_takeLock.both (within_takeLock
    (hc.isName_fileName (slash_not_mem_suffix hsuffix)) (place_mem_filePlaces hc hsuffix)
    fun _ hq => hq)

theorem touches_removeIfThere (hsuffix : suffix ∈ suffixes) :
    Moves (c.touching r s.directory) s
      (Repository.removeIfThere (c.contentPath r.root ++ suffix)) fun _ => True := by
  rw [hc.contentPath_append_eq_join r.root (slash_not_mem_suffix hsuffix)]
  exact steady_removeIfThere.both (within_removeIfThere (place_mem_filePlaces hc hsuffix))

theorem touches_replaceWith {produce : Action Machine.Fault Draft} (hmark : '/' ∉ s.mark.toList)
    (hsuffix : suffix ∈ suffixes) (hproduce : ∀ c, Moves c s produce fun _ => True) :
    Moves (c.touching r s.directory) s (replaceWith (c.contentPath r.root ++ suffix) produce)
      fun _ => True := by
  have hname := hc.isName_fileName (slash_not_mem_suffix hsuffix)
  rw [hc.contentPath_append_eq_join r.root (slash_not_mem_suffix hsuffix)]
  exact (steady_replaceWith (hname.fileName?_join _) (hproduce _)).both (within_replaceWith hname
    hmark (hproduce _) (place_mem_filePlaces hc hsuffix) fun _ hq => hq)

theorem touches_remove :
    Moves (c.touching r s.directory) s (r.remove c) fun _ => True := by
  have hcontent := touches_removeIfThere (r := r) (s := s) hc (by decide : "" ∈ suffixes)
  rw [String.append_empty] at hcontent
  refine .bind (.mapFault (touches_takeLock hc (by decide : ".lock" ∈ suffixes))) fun _ _ => ?_
  exact .bind (.mapFault hcontent) fun _ _ =>
    .mapFault (touches_removeIfThere hc (by decide : ".meta.json" ∈ suffixes))

theorem touches_store (hmark : '/' ∉ s.mark.toList) :
    Moves (c.touching r s.directory) s (r.store c source description) fun _ => True := by
  have hcontent := touches_removeIfThere (r := r) (s := s) hc (by decide : "" ∈ suffixes)
  have hproduce (c : Change) : Moves c s
      (do return ⟨← readFile source, none⟩ : Action Machine.Fault Draft) fun _ => True :=
    .bind .readFile fun _ _ => .pure trivial
  have hreplace := touches_replaceWith (r := r) hc hmark (by decide : "" ∈ suffixes) hproduce
  rw [String.append_empty] at hcontent hreplace
  refine .bind (.mapFault (touches_takeLock hc (by decide : ".lock" ∈ suffixes))) fun _ _ => ?_
  refine .bind (.mapFault .readFile) fun content _ => .bind .now fun n _ => ?_
  refine .bind (.mapFault hcontent) fun _ _ => ?_
  refine .bind (.mapFault (touches_replaceWith hc hmark (by decide : ".meta.json" ∈ suffixes)
    fun _ => .pure trivial)) fun _ _ => ?_
  exact .bind (.mapFault hreplace) fun _ _ => .pure trivial

end Calls

/-! ## What is read afterwards -/

section Reading

variable (hc : c.WellFormed) (hk : k.WellFormed) (hco : c.Ordinary) (hko : k.Ordinary)
  (hmeets : ¬ c.Meets k)

include hc hco hmeets

/-- No file of one artifact is in the way of those of the other. -/
theorem not_mem_filePlaces_above {q : Place} (hsuffix : suffix ∈ suffixes)
    (hq : q <+: place directory r.root ++ k.wayTo suffix) : q ∉ filePlaces r c directory := by
  intro hmem
  rw [filePlaces_eq, List.mem_map] at hmem
  obtain ⟨suffix', hsuffix', rfl⟩ := hmem
  rw [hco.place_append hc (slash_not_mem_suffix hsuffix'), List.prefix_append_right_inj] at hq
  exact hmeets ⟨suffix', hsuffix', suffix, hsuffix, .inl hq⟩

/-- Nor is a folder of one artifact where a file of the other is to be. -/
theorem not_mem_way_folder (hopen : d.Open directory r.root) (hsuffix : suffix ∈ suffixes)
    (hnone : d.get? (place directory r.root ++ k.wayTo suffix) = none) :
    place directory r.root ++ k.wayTo suffix ∉ way directory (c.folder r.root) := by
  intro hmem
  have hup : ['.', '.'] ∉ c.folderNames.map String.toList := by
    intro hup
    obtain ⟨name, hname, heq⟩ := List.mem_map.1 hup
    exact (hco.isName hc hname).ne_up (String.toList_inj.1 heq)
  rcases hopen.mem_way (hco.isAbsolute_folder hc _) (hco.steps_folder hc _) hup hmem with
    hthere | hfolder
  · rw [hnone] at hthere
    cases hthere
  · rw [map_ofList_toList, List.prefix_append_right_inj] at hfolder
    refine hmeets ⟨"", by decide, suffix, hsuffix, .inr (hfolder.trans ?_)⟩
    rw [wayTo_eq]
    exact List.prefix_append _ _

include hk hko

/-- A file of one artifact is read as before when the other one is touched. -/
theorem read_eq_of_touching (htree : d.IsTree) (hopen : d.Open directory r.root)
    (hsuffix : suffix ∈ suffixes) (hnames : ∀ name ∈ k.wayTo suffix, isBadName name.toList = false)
    (h : (c.touching r directory).allows d d') :
    d'.read directory (k.contentPath r.root ++ suffix)
      = d.read directory (k.contentPath r.root ++ suffix) := by
  obtain ⟨hkept, hwithin⟩ := h
  have hslash := slash_not_mem_suffix hsuffix
  have hsteps := hko.steps_append hk hslash r.root
  have hdown : ∀ name ∈ (k.wayTo suffix).map String.toList, LeadsDown name := by
    intro letters hletters
    obtain ⟨name, hname, rfl⟩ := List.mem_map.1 hletters
    have hisName := hko.isName_wayTo hk hslash hname
    exact ⟨hisName.step, fun heq => hisName.ne_up (String.toList_inj.1 heq), hnames name hname⟩
  have hfree {q : Place} (hq : q <+: place directory r.root ++ k.wayTo suffix) :=
    hwithin q (not_mem_filePlaces_above hc hco hmeets hsuffix hq)
  rw [hk.contentPath_append_eq_join r.root hslash] at hsteps ⊢
  refine hopen.read_congr htree hkept (hk.isName_fileName hslash) (hko.isAbsolute_folder hk _)
    hsteps hdown (fun q hq => ?_) ?_
  · rw [map_ofList_toList] at hq
    exact (hfree hq).imp id fun hmade => hmade.2
  · rw [map_ofList_toList]
    rcases hfree (List.prefix_refl _) with hsame | ⟨hmade, hnone, -⟩
    · exact hsame
    · exact absurd hmade (not_mem_way_folder hc hco hmeets hopen hsuffix hnone)

theorem sameArtifact_of_touching (htree : d.IsTree) (hopen : d.Open directory r.root)
    (hnames : ∀ name ∈ k.wayTo ".meta.json", isBadName name.toList = false)
    (h : (c.touching r directory).allows d d') : SameArtifact r k directory d d' := by
  have hshorter : ∀ name ∈ k.wayTo "", isBadName name.toList = false := by
    simp only [wayTo_eq, List.forall_mem_append, List.forall_mem_singleton] at hnames ⊢
    obtain ⟨hfolder, hsidecar⟩ := hnames
    rw [String.append_empty]
    rw [String.toList_append] at hsidecar
    exact ⟨hfolder, isBadName_of_append hsidecar⟩
  have hcontent := read_eq_of_touching hc hk hco hko hmeets htree hopen
    (by decide : "" ∈ suffixes) hshorter h
  rw [String.append_empty] at hcontent
  exact ⟨hcontent, read_eq_of_touching hc hk hco hko hmeets htree hopen
    (by decide : ".meta.json" ∈ suffixes) hnames h⟩

end Reading

/-! ## What is answered afterwards -/

/-- Whether what is asked about an artifact is answered alike in two worlds. -/
structure SameAnswers (r : Repository) (c : Coordinate) (s : Surroundings) (w w' : World) : Prop
    where
  contains : ((r.contains c).perform s w').1 = ((r.contains c).perform s w).1
  fetch : ((r.fetch c).perform s w').1 = ((r.fetch c).perform s w).1
  metadata? : ((r.metadata? c).perform s w').1 = ((r.metadata? c).perform s w).1

/-- When the clock is as it was, only what is read of an artifact matters. -/
theorem SameArtifact.sameAnswers (h : SameArtifact r c s.directory w.disk w'.disk)
    (hreadings : w'.readings = w.readings) : SameAnswers r c s w w' where
  contains := h.contains_eq hreadings
  fetch := h.fetch_eq hreadings
  metadata? := by
    rw [Repository.perform_metadata?, Repository.perform_metadata?, h.recorded?_eq]

/-- A call that changes what a repository has. -/
inductive Operation where
  | store (source : String) (description : Option String)
  | remove
  deriving DecidableEq, Repr, Inhabited

/-- What a call does to an artifact. -/
def Operation.action (r : Repository) (c : Coordinate) : Operation → Action Fault Unit
  | .store source description => do
    let _ ← r.store c source description
    pure ()
  | .remove => r.remove c

/-- The world after calls on an artifact, each from surroundings of its own, however they end. -/
def Repository.after (r : Repository) (c : Coordinate) (calls : List (Surroundings × Operation))
    (w : World) : World :=
  calls.foldl (fun w call => ((call.2.action r c).perform call.1 w).2) w

theorem touches_operation (hc : c.WellFormed) (hmark : '/' ∉ s.mark.toList) (o : Operation) :
    Moves (c.touching r s.directory) s (o.action r c) fun _ => True := by
  cases o with
  | store source description => exact .bind (touches_store hc hmark) fun _ _ => .pure trivial
  | remove => exact touches_remove hc

theorem touches_after (hc : c.WellFormed) {calls : List (Surroundings × Operation)}
    (hcalls : ∀ call ∈ calls, call.1.directory = directory ∧ '/' ∉ call.1.mark.toList) (w : World) :
    (c.touching r directory).allows w.disk (r.after c calls w).disk := by
  induction calls generalizing w with
  | nil => exact (c.touching r directory).refl w.disk
  | cons call calls ih =>
    obtain ⟨⟨rfl, hmark⟩, hrest⟩ := List.forall_mem_cons.1 hcalls
    exact (c.touching r call.1.directory).trans
      ((touches_operation hc hmark call.2).allows_perform w) (ih hrest _)

/-! ## Independence -/

/-- **Two artifacts have six different files below every root unless they clash, and as long as no
file of one is in the way of the other's, whatever is done to one leaves the other alone.** A clash
needs a dot in a kind or a classifier. What is asked about an artifact is answered as before after
any calls on the other one, if the disk is a tree on which the way to the root is open, and names are
not too long for files to have them: where a folder is missing it does not matter what a name in it
is. -/
theorem artifacts_independent {spelling spelling' : String}
    (hparse : Coordinate.parse spelling = .ok c) (hparse' : Coordinate.parse spelling' = .ok k)
    (hco : c.Ordinary) (hko : k.Ordinary) :
    (∀ root, (c.paths root ++ k.paths root).Nodup ↔ ¬ c.Clash k)
    ∧ (∀ root directory, ¬ c.Clash k →
      ((c.paths root ++ k.paths root).map (place directory)).Nodup)
    ∧ (∀ root, ∀ path ∈ c.paths root ++ k.paths root, Path.Below root path)
    ∧ (c.Dotless → k.Dotless → c.Clash k → c = k)
    ∧ ((groupNames c.group).length = (groupNames k.group).length → (c.Meets k ↔ c.Clash k))
    ∧ (¬ c.Meets k →
      ∀ (r : Repository) (directory : Place) (w : World) (calls : List (Surroundings × Operation)),
        w.disk.IsTree → w.disk.Open directory r.root →
        (∀ name ∈ k.wayTo ".meta.json", isBadName name.toList = false) →
        (∀ call ∈ calls, call.1.directory = directory ∧ '/' ∉ call.1.mark.toList) →
        ∀ s : Surroundings, s.directory = directory → ∀ n,
          SameAnswers r k s { w with readings := n } { r.after c calls w with readings := n }) := by
  obtain ⟨-, hc⟩ := Coordinate.parse_eq_ok_iff.1 hparse
  obtain ⟨-, hk⟩ := Coordinate.parse_eq_ok_iff.1 hparse'
  refine ⟨fun root => hco.nodup_paths_iff hc hko hk, fun root directory hclash =>
    hco.nodup_places hc hko hk hclash directory, fun root path hpath => ?_,
    fun hdotless hdotless' hclash => eq_of_clash hclash hdotless hdotless', meets_iff_clash, ?_⟩
  · exact (List.mem_append.1 hpath).elim (hco.below hc) (hko.below hk)
  · rintro hmeets r directory w calls htree hopen hnames hcalls s rfl n
    have hsame := sameArtifact_of_touching hc hk hco hko hmeets htree hopen hnames
      (touches_after hc hcalls w)
    exact SameArtifact.sameAnswers hsame rfl

/-- Two artifacts of a group, one of which is stored and removed. -/
theorem artifacts_independent_siblings :
    (paths ⟨"g", "a", "1", "jar", none⟩ "r" ++ paths ⟨"g", "b", "1", "jar", none⟩ "r").Nodup
      ∧ SameAnswers ⟨"r", 0⟩ ⟨"g", "b", "1", "jar", none⟩ sampleSurroundings
        { World.ofDisk sampleDisk with readings := 3 }
        { Repository.after ⟨"r", 0⟩ ⟨"g", "a", "1", "jar", none⟩
            [(sampleSurroundings, .store "work" none), (sampleSurroundings, .remove)]
            (World.ofDisk sampleDisk) with readings := 3 } := by
  have hparse : parse "g:a:1:jar" = .ok ⟨"g", "a", "1", "jar", none⟩ := by rfl
  have hparse' : parse "g:b:1:jar" = .ok ⟨"g", "b", "1", "jar", none⟩ := by rfl
  have hclash : ¬ Clash ⟨"g", "a", "1", "jar", none⟩ ⟨"g", "b", "1", "jar", none⟩ := fun h =>
    absurd h.artifact (by decide)
  obtain ⟨hpaths, -, -, -, hmeets, hanswers⟩ := artifacts_independent hparse hparse'
    ⟨by decide, by decide, by decide⟩ ⟨by decide, by decide, by decide⟩
  refine ⟨(hpaths "r").2 hclash, hanswers (fun h => hclash ((hmeets rfl).1 h)) _ [] _ _
    (isTree_of_nodes (by decide)) ?_ (by decide) ?_ _ rfl 3⟩
  · refine ⟨[], [['r']], [], rfl, rfl, rfl, ?_⟩
    unfold Disk.LeadsDown
    decide
  · simp only [List.forall_mem_cons]
    exact ⟨⟨rfl, by decide⟩, ⟨rfl, by decide⟩, by simp⟩

/-- An artifact, and another one whose content has the name of its sidecar. -/
def sampleJar : Coordinate := ⟨"g", "a", "1", "jar", none⟩

def sampleClash : Coordinate := ⟨"g", "a", "1", "jar.meta.json", none⟩

/-- What is recorded of the first one. -/
def sampleMetadata : Metadata := ⟨sampleJar, none, (Fingerprint.ofBytes [1]).hex, 1, 0⟩

/-- A disk on which the first one is stored. -/
def clashingDisk : Disk :=
  ⟨[(["r"], .directory), (["r", "g"], .directory), (["r", "g", "a"], .directory),
    (["r", "g", "a", "1"], .directory), (["r", "g", "a", "1", "a-1.jar"], .file [1] 0),
    (["r", "g", "a", "1", "a-1.jar.meta.json"], .file sampleMetadata.encode 0)]⟩

/-- The first one is there, until the second one is removed. -/
theorem contains_sampleJar :
    ((Repository.contains ⟨"r", 0⟩ sampleJar).perform sampleSurroundings
        (World.ofDisk clashingDisk)).1 = .ok true
      ∧ ((Repository.contains ⟨"r", 0⟩ sampleJar).perform sampleSurroundings
        (Repository.after ⟨"r", 0⟩ sampleClash [(sampleSurroundings, .remove)]
          (World.ofDisk clashingDisk))).1 = .ok false := by
  have hparse : parse "g:a:1:jar" = .ok sampleMetadata.coordinate := by rfl
  have hpresent : Present ⟨"r", 0⟩ sampleJar [] clashingDisk [1] sampleMetadata := by
    refine ⟨by rfl, ⟨sampleMetadata.encode, by rfl, ?_⟩, rfl⟩
    exact Metadata.parse?_encode hparse (by decide) (by decide)
  constructor
  · rw [Present.contains (w := World.ofDisk clashingDisk) hpresent]
    rfl
  · apply eq_ok_of_toOption
    decide +kernel

/-- An artifact whose folder is where the lock of `sampleJar` is. -/
def sampleBelow : Coordinate := ⟨"g.a.1", "a-1.jar.lock", "2", "jar", none⟩

theorem metadata?_sampleBelow :
    ((Repository.metadata? ⟨"r", 0⟩ sampleBelow).perform sampleSurroundings
        (World.ofDisk sampleDisk)).1 = .ok none
      ∧ ((Repository.metadata? ⟨"r", 0⟩ sampleBelow).perform sampleSurroundings
        (Repository.after ⟨"r", 0⟩ sampleJar [(sampleSurroundings, .remove)]
          (World.ofDisk sampleDisk))).1 = .error (.file .notADirectory) := by
  decide +kernel

/-- Different artifacts are not always independent. The content of one can be the sidecar of
another, so that removing one loses the other; two can have all files in common; and where files are
different, the lock of one can be in the way of the other's. -/
theorem not_artifacts_independent :
    (∃ c k, parse "g:a:1:jar" = .ok c ∧ parse "g:a:1:jar.meta.json" = .ok k ∧ c ≠ k
      ∧ c.sidecarPath "r" = k.contentPath "r"
      ∧ ((Repository.contains ⟨"r", 0⟩ c).perform sampleSurroundings
          (World.ofDisk clashingDisk)).1 = .ok true
      ∧ ((Repository.contains ⟨"r", 0⟩ c).perform sampleSurroundings
          (Repository.after ⟨"r", 0⟩ k [(sampleSurroundings, .remove)]
            (World.ofDisk clashingDisk))).1 = .ok false)
    ∧ (∃ c k, parse "g:a:1:gz:x.tar" = .ok c ∧ parse "g:a:1:tar.gz:x" = .ok k ∧ c ≠ k
      ∧ ∀ root, c.paths root = k.paths root)
    ∧ (∃ c k, parse "g:a:1:jar" = .ok c ∧ parse "g.a.1:a-1.jar.lock:2:jar" = .ok k ∧ ¬ c.Clash k
      ∧ ((Repository.metadata? ⟨"r", 0⟩ k).perform sampleSurroundings
          (World.ofDisk sampleDisk)).1 = .ok none
      ∧ ((Repository.metadata? ⟨"r", 0⟩ k).perform sampleSurroundings
          (Repository.after ⟨"r", 0⟩ c [(sampleSurroundings, .remove)]
            (World.ofDisk sampleDisk))).1 = .error (.file .notADirectory))
    ∧ ¬ ∀ spelling spelling' c k, parse spelling = .ok c → parse spelling' = .ok k → c ≠ k →
      ∀ root, (c.paths root ++ k.paths root).Nodup := by
  have hjar : parse "g:a:1:jar" = .ok sampleJar := by rfl
  have hclash : parse "g:a:1:jar.meta.json" = .ok sampleClash := by rfl
  have hbelow : parse "g.a.1:a-1.jar.lock:2:jar" = .ok sampleBelow := by rfl
  have hne : sampleJar ≠ sampleClash := by decide
  have hshared : sampleJar.sidecarPath "r" = sampleClash.contentPath "r" := by decide
  refine ⟨⟨_, _, hjar, hclash, hne, hshared, contains_sampleJar⟩,
    ⟨⟨"g", "a", "1", "gz", some "x.tar"⟩, ⟨"g", "a", "1", "tar.gz", some "x"⟩, by rfl, by rfl,
      by decide, fun root => ?_⟩,
    ⟨_, _, hjar, hbelow, fun h => absurd h.group (by decide), metadata?_sampleBelow⟩,
    fun hall => ?_⟩
  · have hrelative : relativePath ⟨"g", "a", "1", "gz", some "x.tar"⟩
        = relativePath ⟨"g", "a", "1", "tar.gz", some "x"⟩ := by decide
    simp only [paths, sidecarPath, lockPath, contentPath, hrelative]
  · have hpaths := hall _ _ _ _ hjar hclash hne "r"
    simp [paths, hshared] at hpaths

end Jarwright.Store
