import Jarwright.Proofs.Machine.Keeping
import Jarwright.Proofs.Store.Repository

/-!
# Which artifacts a repository has

Whether an artifact is found depends on two files and, for snapshots, on the clock. `Present` says
what the files have to hold, and then finding and fetching are known (`perform_contains`,
`Present.fetch`).

* `SameArtifact`: the files are read alike on two disks;
* `Present.store_other`: storing one artifact leaves every other one alone;
* `present_of_store`: what was stored is there.
-/

namespace Jarwright.Store

open Machine Machine.Disk Machine.Action

variable {r : Repository} {c : Coordinate} {directory : Place} {d d' : Disk} {s : Surroundings}
  {w w' : World} {content : Bytes} {m : Metadata}

/-! ## Finding -/

/-- The content of an artifact is in its file, and is the one that its sidecar records. -/
structure Present (r : Repository) (c : Coordinate) (directory : Place) (d : Disk)
    (content : Bytes) (m : Metadata) : Prop where
  read : d.read directory (c.contentPath r.root) = .ok content
  sidecar : ∃ bytes, d.read directory (c.sidecarPath r.root) = .ok bytes
    ∧ Metadata.parse? bytes = some m
  fingerprint : m.sha256 = (Fingerprint.ofBytes content).hex

/-- Whether the files of an artifact are read alike on two disks. -/
structure SameArtifact (r : Repository) (c : Coordinate) (directory : Place) (d d' : Disk) : Prop
    where
  content : d'.read directory (c.contentPath r.root) = d.read directory (c.contentPath r.root)
  sidecar : d'.read directory (c.sidecarPath r.root) = d.read directory (c.sidecarPath r.root)

theorem Present.congr (h : Present r c directory d content m)
    (hsame : SameArtifact r c directory d d') : Present r c directory d' content m := by
  obtain ⟨hcontent, ⟨bytes, hsidecar, hparse⟩, hsha⟩ := h
  exact ⟨hsame.content.trans hcontent, ⟨bytes, hsame.sidecar.trans hsidecar, hparse⟩, hsha⟩

/-- What is there stays when nothing is lost. -/
theorem Present.grow (h : Present r c directory d content m) (hgrown : Change.growing.allows d d') :
    Present r c directory d' content m := by
  obtain ⟨hdirectories, hfiles⟩ := hgrown
  have hread {path : String} {bytes : Bytes} (hread : d.read directory path = .ok bytes) :
      d'.read directory path = .ok bytes := by
    obtain ⟨hlocate, hcontent⟩ := read_eq_ok_iff.1 hread
    exact read_eq_ok_iff.2 ⟨locate_mono hdirectories hlocate, (hfiles _).trans hcontent⟩
  obtain ⟨hcontent, ⟨bytes, hsidecar, hparse⟩, hsha⟩ := h
  exact ⟨hread hcontent, ⟨bytes, hread hsidecar, hparse⟩, hsha⟩

theorem isFile_eq_toBool_read (d : Disk) (directory : Place) (path : String) :
    d.isFile directory path = (d.read directory path).toBool := by
  unfold Disk.isFile Disk.read
  cases d.node directory path with
  | error e => rfl
  | ok node => cases node <;> rfl

namespace Repository

/-- What the sidecar of an artifact says. -/
def recorded? (r : Repository) (c : Coordinate) (directory : Place) (d : Disk) :
    Except Fault (Option Metadata) :=
  match d.read directory (c.sidecarPath r.root) with
  | .error .notFound => .ok none
  | .error e => .error (.file e)
  | .ok bytes =>
    match Metadata.parse? bytes with
    | some m => .ok (some m)
    | none => .error .malformed

theorem perform_metadata? :
    (r.metadata? c).perform s w = (r.recorded? c s.directory w.disk, w) := by
  unfold metadata? Metadata.load? recorded?
  rw [perform_bind, perform_attempt, perform_readFile]
  rcases w.disk.read s.directory (c.sidecarPath r.root) with e | bytes
  · cases e <;> rfl
  · dsimp only
    cases Metadata.parse? bytes <;> rfl

/-- Finding an artifact, as far as the disk decides it; the rest is up to the clock. -/
def found (r : Repository) (c : Coordinate) (directory : Place) (d : Disk) :
    Except Fault (Option Metadata) :=
  if d.isFile directory (c.contentPath r.root) then
    match r.recorded? c directory d with
    | .error .malformed => .ok none
    | recorded => recorded
  else .ok none

theorem perform_contains :
    (r.contains c).perform s w = match r.found c s.directory w.disk with
      | .error e => (.error e, w)
      | .ok none => (.ok false, w)
      | .ok (some m) =>
        if c.isSnapshot then
          (.ok (decide (m.age (s.clock w.readings) < r.lifetime)),
            { w with readings := w.readings + 1 })
        else (.ok true, w) := by
  unfold contains found
  rw [perform_bind, perform_isFile]
  cases w.disk.isFile s.directory (c.contentPath r.root) with
  | false => rfl
  | true =>
    simp only [Bool.not_true, Bool.false_eq_true, if_false, if_true]
    rw [perform_bind, perform_attempt, perform_metadata?]
    rcases r.recorded? c s.directory w.disk with e | _ | m
    · cases e <;> rfl
    · rfl
    · dsimp only
      split <;> rfl

end Repository

theorem SameArtifact.recorded?_eq (h : SameArtifact r c directory d d') :
    r.recorded? c directory d' = r.recorded? c directory d := by
  unfold Repository.recorded?
  rw [h.sidecar]

theorem SameArtifact.found_eq (h : SameArtifact r c directory d d') :
    r.found c directory d' = r.found c directory d := by
  unfold Repository.found
  rw [isFile_eq_toBool_read, isFile_eq_toBool_read, h.content, h.recorded?_eq]

theorem SameArtifact.contains_eq (h : SameArtifact r c s.directory w.disk w'.disk)
    (hreadings : w'.readings = w.readings) :
    ((r.contains c).perform s w').1 = ((r.contains c).perform s w).1 := by
  rw [Repository.perform_contains, Repository.perform_contains, h.found_eq, hreadings]
  rcases r.found c s.directory w.disk with e | _ | m
  · rfl
  · rfl
  · dsimp only
    split <;> rfl

theorem Present.found (h : Present r c directory d content m) :
    r.found c directory d = .ok (some m) := by
  obtain ⟨hcontent, ⟨bytes, hsidecar, hparse⟩, -⟩ := h
  unfold Repository.found Repository.recorded?
  rw [isFile_eq_toBool_read, hcontent, hsidecar]
  dsimp only
  rw [hparse]
  rfl

/-- Whether an artifact is found when it is there. -/
theorem Present.contains (h : Present r c s.directory w.disk content m) :
    (r.contains c).perform s w =
      if c.isSnapshot then
        (.ok (decide (m.age (s.clock w.readings) < r.lifetime)),
          { w with readings := w.readings + 1 })
      else (.ok true, w) := by
  rw [Repository.perform_contains, h.found]

/-! ## Fetching -/

namespace Repository

/-- The path of an artifact that was found, if its content is the one that was stored. -/
def checked (r : Repository) (c : Coordinate) (directory : Place) (d : Disk) :
    Except Fault String :=
  match r.recorded? c directory d with
  | .error e => .error e
  | .ok none => .ok (c.contentPath r.root)
  | .ok (some m) =>
    match d.read directory (c.contentPath r.root) with
    | .error e => .error (.file e)
    | .ok content =>
      if (Fingerprint.ofBytes content).hex = m.sha256 then .ok (c.contentPath r.root)
      else .error (.changed (c.contentPath r.root) m.sha256 (Fingerprint.ofBytes content).hex)

theorem perform_fetch :
    (r.fetch c).perform s w = match (r.contains c).perform s w with
      | (.error e, w') => (.error e, w')
      | (.ok false, w') => (.error (.notFound c), w')
      | (.ok true, w') => (r.checked c s.directory w'.disk, w') := by
  unfold fetch checked
  rw [perform_bind]
  rcases (r.contains c).perform s w with ⟨_ | _ | _, w'⟩
  · rfl
  · rfl
  · simp only [Bool.not_true, Bool.false_eq_true, if_false]
    rw [perform_bind, perform_metadata?]
    rcases r.recorded? c s.directory w'.disk with e | _ | m
    · rfl
    · rfl
    · dsimp only
      rw [perform_bind, perform_mapFault, perform_readFile]
      rcases w'.disk.read s.directory (c.contentPath r.root) with e | content
      · rfl
      · dsimp only [mapError_ok]
        split <;> rfl

/-- Looking for an artifact at most reads the clock. -/
theorem contains_world :
    ∃ n, w.readings ≤ n ∧ ((r.contains c).perform s w).2 = { w with readings := n } := by
  rw [perform_contains]
  rcases r.found c s.directory w.disk with e | _ | m
  · exact ⟨w.readings, Nat.le_refl _, rfl⟩
  · exact ⟨w.readings, Nat.le_refl _, rfl⟩
  · dsimp only
    split
    · exact ⟨w.readings + 1, Nat.le_succ _, rfl⟩
    · exact ⟨w.readings, Nat.le_refl _, rfl⟩

theorem fetch_world :
    ∃ n, w.readings ≤ n ∧ ((r.fetch c).perform s w).2 = { w with readings := n } := by
  obtain ⟨n, hn, hworld⟩ := contains_world (r := r) (c := c) (s := s) (w := w)
  refine ⟨n, hn, ?_⟩
  rw [perform_fetch, ← hworld]
  rcases (r.contains c).perform s w with ⟨_ | _ | _, w'⟩ <;> rfl

/-- What is found has a content, and a sidecar that can be read. -/
theorem found_eq_some (h : r.found c directory d = .ok (some m)) :
    (∃ content, d.read directory (c.contentPath r.root) = .ok content)
      ∧ r.recorded? c directory d = .ok (some m) := by
  unfold found at h
  rw [isFile_eq_toBool_read] at h
  split at h
  · rename_i hfile
    constructor
    · cases hread : d.read directory (c.contentPath r.root) with
      | error e =>
        rw [hread] at hfile
        cases hfile
      | ok content => exact ⟨content, rfl⟩
    · split at h
      · cases h
      · exact h
  · cases h

theorem exists_of_recorded? (h : r.recorded? c directory d = .ok (some m)) :
    ∃ bytes, d.read directory (c.sidecarPath r.root) = .ok bytes
      ∧ Metadata.parse? bytes = some m := by
  unfold recorded? at h
  split at h
  · cases h
  · cases h
  · rename_i bytes hread
    split at h
    · rename_i m' hparse
      obtain rfl : m' = m := Option.some.inj (Except.ok.inj h)
      exact ⟨bytes, hread, hparse⟩
    · cases h

theorem found_of_contains (h : ((r.contains c).perform s w).1 = .ok true) :
    ∃ m, r.found c s.directory w.disk = .ok (some m) := by
  rw [perform_contains] at h
  rcases hfound : r.found c s.directory w.disk with e | _ | m
  · rw [hfound] at h
    cases h
  · rw [hfound] at h
    cases h
  · exact ⟨m, rfl⟩

theorem ne_notFound_of_recorded? {e : Fault} (h : r.recorded? c directory d = .error e)
    (k : Coordinate) : e ≠ .notFound k := by
  unfold recorded? at h
  rintro rfl
  split at h
  · cases h
  · cases h
  · split at h
    · cases h
    · cases h

/-- Whatever goes wrong when an artifact is looked for, it is not that it is missing. -/
theorem ne_notFound_of_contains {e : Fault} (h : ((r.contains c).perform s w).1 = .error e)
    (k : Coordinate) : e ≠ .notFound k := by
  have hnot {cause : Fault} (hfound : r.found c s.directory w.disk = .error cause) :
      cause ≠ .notFound k := by
    unfold found at hfound
    split at hfound
    · split at hfound
      · cases hfound
      · exact ne_notFound_of_recorded? hfound k
    · cases hfound
  rw [perform_contains] at h
  rcases hfound : r.found c s.directory w.disk with cause | _ | m
  · rw [hfound] at h
    obtain rfl := Except.error.inj h
    exact hnot hfound
  · rw [hfound] at h
    cases h
  · rw [hfound] at h
    dsimp only at h
    split at h <;> cases h

/-- Fetching misses nothing but the artifact itself. -/
theorem fetch_eq_notFound {k : Coordinate}
    (h : ((r.fetch c).perform s w).1 = .error (.notFound k)) : k = c := by
  rw [perform_fetch] at h
  rcases hcontains : (r.contains c).perform s w with ⟨e | _ | _, w'⟩
  · rw [hcontains] at h
    exact absurd (Except.error.inj h) (ne_notFound_of_contains (congrArg Prod.fst hcontains) k)
  · rw [hcontains] at h
    exact (Fault.notFound.inj (Except.error.inj h)).symm
  · rw [hcontains] at h
    dsimp only at h
    unfold checked at h
    split at h
    · rename_i hrecorded
      exact absurd (Except.error.inj h) (ne_notFound_of_recorded? hrecorded k)
    · cases h
    · split at h
      · cases h
      · split at h <;> cases h

/-- What is fetched is there. -/
theorem present_of_fetch {path : String} (h : ((r.fetch c).perform s w).1 = .ok path) :
    path = c.contentPath r.root ∧ ∃ content m, Present r c s.directory w.disk content m := by
  obtain ⟨n, -, hworld⟩ := contains_world (r := r) (c := c) (s := s) (w := w)
  rw [perform_fetch] at h
  rcases hcontains : (r.contains c).perform s w with ⟨_ | _ | _, w'⟩
  · rw [hcontains] at h
    cases h
  · rw [hcontains] at h
    cases h
  · rw [hcontains] at h hworld
    obtain rfl : w' = { w with readings := n } := hworld
    obtain ⟨m, hfound⟩ := found_of_contains (congrArg Prod.fst hcontains)
    obtain ⟨⟨content, hread⟩, hrecorded⟩ := found_eq_some hfound
    dsimp only at h
    unfold checked at h
    rw [hrecorded, hread] at h
    dsimp only at h
    split at h
    · rename_i hsha
      exact ⟨(Except.ok.inj h).symm, content, m, hread, exists_of_recorded? hrecorded, hsha.symm⟩
    · cases h

end Repository

theorem SameArtifact.checked_eq (h : SameArtifact r c directory d d') :
    r.checked c directory d' = r.checked c directory d := by
  unfold Repository.checked
  rw [h.recorded?_eq]
  rcases r.recorded? c directory d with e | _ | m
  · rfl
  · rfl
  · dsimp only
    rw [h.content]

theorem SameArtifact.fetch_eq (h : SameArtifact r c s.directory w.disk w'.disk)
    (hreadings : w'.readings = w.readings) :
    ((r.fetch c).perform s w').1 = ((r.fetch c).perform s w).1 := by
  have hcontains := h.contains_eq hreadings
  obtain ⟨n, -, hworld⟩ := Repository.contains_world (r := r) (c := c) (s := s) (w := w)
  obtain ⟨n', -, hworld'⟩ := Repository.contains_world (r := r) (c := c) (s := s) (w := w')
  rw [Repository.perform_fetch, Repository.perform_fetch]
  generalize (r.contains c).perform s w = asked at hcontains hworld ⊢
  generalize (r.contains c).perform s w' = asked' at hcontains hworld' ⊢
  obtain ⟨answer, w₁⟩ := asked
  obtain ⟨answer', w₁'⟩ := asked'
  obtain rfl : answer' = answer := hcontains
  obtain rfl : w₁ = { w with readings := n } := hworld
  obtain rfl : w₁' = { w' with readings := n' } := hworld'
  rcases answer' with e | _ | _
  · rfl
  · rfl
  · dsimp only
    rw [h.checked_eq]

/-- An artifact that is there is fetched, unless it is one that is only there for a while. -/
theorem Present.fetch (h : Present r c s.directory w.disk content m) :
    (r.fetch c).perform s w =
      if c.isSnapshot then
        if m.age (s.clock w.readings) < r.lifetime then
          (.ok (c.contentPath r.root), { w with readings := w.readings + 1 })
        else (.error (.notFound c), { w with readings := w.readings + 1 })
      else (.ok (c.contentPath r.root), w) := by
  have hchecked : r.checked c s.directory w.disk = .ok (c.contentPath r.root) := by
    obtain ⟨hread, ⟨bytes, hsidecar, hparse⟩, hsha⟩ := h
    unfold Repository.checked Repository.recorded?
    rw [hread, hsidecar]
    dsimp only
    rw [hparse]
    exact if_pos hsha.symm
  rw [Repository.perform_fetch, h.contains]
  by_cases hsnapshot : c.isSnapshot = true
  · rw [if_pos hsnapshot, if_pos hsnapshot]
    by_cases hage : m.age (s.clock w.readings) < r.lifetime
    · rw [if_pos hage, decide_eq_true hage]
      dsimp only
      rw [hchecked]
    · rw [if_neg hage, decide_eq_false hage]
  · rw [if_neg hsnapshot, if_neg hsnapshot]
    dsimp only
    rw [hchecked]

/-- An artifact that is there is only missed when its time is over. -/
theorem Present.expired (h : Present r c s.directory w.disk content m)
    (hmissing : ((r.fetch c).perform s w).1 = .error (.notFound c)) :
    c.isSnapshot = true
      ∧ ∃ n < ((r.fetch c).perform s w).2.readings, r.lifetime ≤ m.age (s.clock n) := by
  rw [h.fetch] at hmissing ⊢
  split at hmissing
  · rename_i hsnapshot
    split at hmissing
    · cases hmissing
    · rename_i hage
      rw [if_pos hsnapshot, if_neg hage]
      exact ⟨hsnapshot, w.readings, Nat.lt_succ_self _, Nat.le_of_not_lt hage⟩
  · cases hmissing

/-! ## Storing -/

section Storing

variable {k : Coordinate} {source text : String} {description : Option String}

theorem steady_takeLock {path : String} : Moves .steady s (takeLock path) fun _ => True := by
  have hcreate : Moves .steady s (do if ← isFile path then return else createFile path)
      fun _ => True := by
    refine .bind (.look (Q := fun _ => True) fun _ => trivial) fun found _ => ?_
    split
    · exact .pure trivial
    · exact .createFile trivial fun _ _ _ => keepsDirectories_create
  unfold takeLock
  split
  · exact .bind (.makeDirectories fun _ _ _ => keepsDirectories_makeDirectory) fun _ _ => hcreate
  · exact hcreate

theorem steady_removeIfThere {path : String} :
    Moves .steady s (Repository.removeIfThere path) fun _ => True := by
  refine .bind (.attempt (R := fun _ => True) (.step trivial fun _ _ => keepsDirectories_remove)
    fun _ => trivial) ?_
  rintro result -
  split
  · exact .pure trivial
  · exact .pure trivial
  · exact .throw

/-- Whatever goes wrong when an artifact is stored, a file cannot be accessed. -/
theorem file_of_store {e : Fault}
    (h : ((r.store c source description).perform s w).1 = .error e) : ∃ cause, e = .file cause := by
  have hpart {α : Type} {x : Action Machine.Fault α} :
      Keeps (fun _ => True) s (x.mapFault Fault.file) (fun _ => True)
        fun e _ => ∃ cause, e = .file cause :=
    .mapFault (.mono .anyway (fun _ _ => trivial) fun cause _ _ => ⟨cause, rfl⟩)
  have hstore : Keeps (fun _ => True) s (r.store c source description) (fun _ => True)
      fun e _ => ∃ cause, e = .file cause :=
    .bind hpart fun _ _ => .bind hpart fun content _ =>
      .bind .now fun n _ =>
      .bind hpart fun _ _ => .bind hpart fun _ _ => .bind hpart fun _ _ => .pure trivial
  exact hstore.error trivial h

/-- Storing takes no directory away, and in the end the content can be found. -/
theorem ends_store (hc : c.WellFormed) :
    Ends (r.store c source description) s w
      (fun _ w' => w.disk.KeepsDirectories w'.disk
        ∧ w'.disk.locate s.directory (c.contentPath r.root)
          = .ok (place s.directory (c.contentPath r.root)))
      fun _ w' => w.disk.KeepsDirectories w'.disk := by
  have hlock : Ends (takeLock (c.lockPath r.root)) s w
      (fun _ w' => w'.disk.locate s.directory (c.lockPath r.root)
        = .ok (place s.directory (c.lockPath r.root))) fun _ _ => True :=
    .of_passes (passes_takeLock (I := fun _ => True) (Q := fun _ d' =>
      d'.locate s.directory (c.lockPath r.root) = .ok (place s.directory (c.lockPath r.root)))
      (fun _ _ => trivial) (fun _ _ h => h) fun _ _ _ => trivial)
  refine .bind (.mapFault ((hlock.and (steady_takeLock.ends w)).mono ?_ fun _ _ h => h.2))
  rintro - w₁ ⟨hlocate, hfirst, -⟩
  have hrest (x : Action Fault String) (h : Moves .steady s x fun _ => True) :
      Ends x s w₁ (fun _ w' => w.disk.KeepsDirectories w'.disk
        ∧ w'.disk.locate s.directory (c.contentPath r.root)
          = .ok (place s.directory (c.contentPath r.root)))
        fun _ w' => w.disk.KeepsDirectories w'.disk := by
    refine (h.ends w₁).mono ?_ fun _ w' hkept => Change.steady.trans hfirst hkept
    rintro - w' ⟨hkept, -⟩
    exact ⟨Change.steady.trans hfirst hkept, locate_mono hkept (hc.locate_content hlocate)⟩
  apply hrest
  refine .bind (.mapFault .readFile) fun content _ => .bind .now fun n _ => ?_
  refine .bind (.mapFault steady_removeIfThere) fun _ _ => ?_
  refine .bind (.mapFault (steady_replaceWith (hc.fileName?_append (by decide)) (.pure trivial)))
    fun _ _ => ?_
  refine .bind (.mapFault (steady_replaceWith hc.fileName?_contentPath
    (.bind .readFile fun _ _ => .pure trivial))) fun _ _ => ?_
  exact .pure trivial

/-- Files that are there stay, except at some places. -/
def Spares (ps : List Place) (d d' : Disk) : Prop :=
  ∀ q content, q ∉ ps → d.content? q = some content → d'.content? q = some content

theorem Spares.trans {ps : List Place} {d₁ d₂ d₃ : Disk} (h : Spares ps d₁ d₂)
    (h' : Spares ps d₂ d₃) : Spares ps d₁ d₃ := fun q content hq hthere =>
  h' q content hq (h q content hq hthere)

/-- The places of the files that a repository keeps for an artifact. -/
def filePlaces (r : Repository) (c : Coordinate) (directory : Place) : List Place :=
  [place directory (c.contentPath r.root), place directory (c.sidecarPath r.root),
    place directory (c.lockPath r.root)]

/-- What stands behind the name of an artifact in the names of its files. -/
def suffixes : List String := ["", ".meta.json", ".lock"]

theorem slash_not_mem_suffix {suffix : String} (h : suffix ∈ suffixes) : '/' ∉ suffix.toList := by
  revert suffix
  decide

theorem filePlaces_eq (r : Repository) (c : Coordinate) (directory : Place) :
    filePlaces r c directory
      = suffixes.map fun suffix => place directory (c.contentPath r.root ++ suffix) := by
  simp [filePlaces, suffixes, Coordinate.sidecarPath, Coordinate.lockPath]

theorem Spares.of_files {ps : List Place} {p : Place} {d₁ d₂ : Disk} (hp : p ∈ ps)
    (h : ∀ q, q ≠ p → d₂.content? q = d₁.content? q) : Spares ps d₁ d₂ := by
  intro q content hq hthere
  have hne : q ≠ p := by
    rintro rfl
    exact hq hp
  exact (h q hne).trans hthere

/-- Replacing a file changes no other one that is there. -/
theorem passes_replaceWith_spares {ps : List Place} {d₁ : Disk} {path name : String}
    {produce : Action Machine.Fault Draft} (hmark : '/' ∉ s.mark.toList)
    (hp : place s.directory path ∈ ps) (hname : Path.fileName? path = some name)
    (hproduce : ∀ d', Passes produce s d' (fun _ => False) (fun _ e => e = d') fun _ e => e = d')
    (hfirst : Spares ps d d₁) :
    Passes (replaceWith path produce) s d₁ (fun _ => True) (fun _ d' => Spares ps d d')
      fun _ d' => Spares ps d d' := by
  refine passes_replaceWith (P := fun _ => True) hname hmark (fun d' _ => ?_)
    (fun _ _ => trivial) (fun _ d' h => ?_) ?_
  · exact (hproduce d').mono (fun _ => id) (fun _ _ h => ⟨h, trivial⟩) fun _ _ => id
  · exact hfirst.trans fun q content _ => h.files q content
  · rintro draft - d' - - - h
    exact hfirst.trans fun q content hq => h.files q content fun heq => hq (heq ▸ hp)

/-- Storing changes no files but those of the artifact. -/
theorem passes_store_spares (hc : c.WellFormed) (hmark : '/' ∉ s.mark.toList) :
    Passes (r.store c source description) s d (fun _ => True)
      (fun _ d' => Spares (filePlaces r c s.directory) d d')
      fun _ d' => Spares (filePlaces r c s.directory) d d' := by
  -- lock, old content, sidecar and new content: each step writes one of the three files
  refine .bind (.mapFault (passes_takeLock (fun _ _ => trivial) (fun d₁ hd₁ _ => ?_)
    fun _ d' h => .of_files (by simp [filePlaces]) h))
  have h₁ : Spares (filePlaces r c s.directory) d d₁ := .of_files (by simp [filePlaces]) hd₁
  refine .bind (.mapFault (.readFile (fun content _ => ?_) fun _ _ => h₁))
  refine .bind (.now fun n => .bind (.mapFault (passes_removeIfThere trivial (fun d₂ hd₂ _ => ?_)
    fun _ => h₁)))
  have h₂ : Spares (filePlaces r c s.directory) d d₂ :=
    h₁.trans (.of_files (by simp [filePlaces]) hd₂)
  refine .bind (.mapFault ((passes_replaceWith_spares hmark
    (by simp [filePlaces, Coordinate.sidecarPath]) (hc.fileName?_append (by decide))
    (fun d' => .pure rfl) h₂).mono (fun _ => id) (fun _ d₃ h₃ => ?_) fun _ _ => id))
  refine .bind (.mapFault ((passes_replaceWith_spares hmark (by simp [filePlaces])
    hc.fileName?_contentPath
    (fun d' => .bind (.readFile (fun _ _ => .pure rfl) fun _ _ => rfl)) h₃).mono (fun _ => id)
    (fun _ d₄ h₄ => .pure h₄) fun _ _ => id))

/-- What was stored is there. -/
theorem present_of_store {path : String} (hparse : Coordinate.parse text = .ok c)
    (hs : Regular directory s) (hsource : Storable c r.root directory source w.disk)
    (h : ((r.store c source description).perform s w).1 = .ok path) :
    path = c.contentPath r.root ∧ ∃ content m,
      Present r c directory ((r.store c source description).perform s w).2.disk content m := by
  obtain ⟨-, hc⟩ := Coordinate.parse_eq_ok_iff.1 hparse
  obtain ⟨rfl, content, -, hpublished, hname, bytes, m, hsidecar, hm, hsha⟩ :=
    (passes_storing (I := fun _ => True) hparse hs hsource (fun _ _ => trivial)
      fun _ _ => trivial).ok rfl h
  obtain rfl := hs.directory
  have hlocate := ((ends_store hc).perform.1 _ h).2
  refine ⟨rfl, content, m, read_eq_ok_iff.2 ⟨hlocate, hpublished⟩, ⟨bytes, ?_, hm⟩, hsha⟩
  exact read_eq_ok_iff.2 ⟨hc.locate_sidecar hname hlocate, hsidecar⟩

/-- Whether the files of an artifact stand in other places than those that are kept for another
one. -/
structure Apart (r : Repository) (directory : Place) (k c : Coordinate) : Prop where
  content : place directory (k.contentPath r.root) ∉ filePlaces r c directory
  sidecar : place directory (k.sidecarPath r.root) ∉ filePlaces r c directory

/-- However storing an artifact ends, every other one that was there is there as before. -/
theorem Present.store_other (h : Present r k directory w.disk content m) (hc : c.WellFormed)
    (hs : Regular directory s) (hapart : Apart r directory k c) :
    Present r k directory ((r.store c source description).perform s w).2.disk content m := by
  obtain rfl := hs.directory
  have hspares : Ends (r.store c source description) s w
      (fun _ w' => Spares (filePlaces r c s.directory) w.disk w'.disk)
      fun _ w' => Spares (filePlaces r c s.directory) w.disk w'.disk :=
    .of_passes (passes_store_spares hc hs.mark)
  obtain ⟨hok, herror⟩ := (((ends_store hc).mono (fun _ _ h => h.1) fun _ _ h => h).and
    hspares).perform
  have hkept : w.disk.KeepsDirectories ((r.store c source description).perform s w).2.disk
      ∧ Spares (filePlaces r c s.directory) w.disk
        ((r.store c source description).perform s w).2.disk := by
    cases hresult : ((r.store c source description).perform s w).1 with
    | ok path => exact hok path hresult
    | error e => exact herror e hresult
  have hread {path : String} {bytes : Bytes}
      (hne : place s.directory path ∉ filePlaces r c s.directory)
      (hread : w.disk.read s.directory path = .ok bytes) :
      ((r.store c source description).perform s w).2.disk.read s.directory path = .ok bytes := by
    obtain ⟨hlocate, hcontent⟩ := read_eq_ok_iff.1 hread
    exact read_eq_ok_iff.2 ⟨locate_mono hkept.1 hlocate, hkept.2 _ _ hne hcontent⟩
  obtain ⟨hfile, ⟨bytes, hsidecar, hm⟩, hsha⟩ := h
  exact ⟨hread hapart.content hfile, ⟨bytes, hread hapart.sidecar hsidecar, hm⟩, hsha⟩

end Storing

end Jarwright.Store
