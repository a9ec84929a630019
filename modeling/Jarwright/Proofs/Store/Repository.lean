import Jarwright.Proofs.Machine.Replacement
import Jarwright.Proofs.Store.Location
import Jarwright.Proofs.Store.Metadata
import Jarwright.Store.Repository

/-!
# What the calls of a repository do to the files of an artifact

The content of an artifact, its sidecar and its lock stand in one folder, under names that only
differ in their endings; so do the temporary files that are renamed to them. `Sound` says that a
content is the one published last and that its sidecar records it.

* `place_append_inj`, `eq_of_isTemporary`: the files of an artifact stand in different places;
* `passes_store`, `passes_remove`: the disks from which storing and removing take their steps;
* `passes_fetch`: what is fetched from a disk that is sound.
-/

namespace Jarwright.Store

open Machine Machine.Disk Machine.Action

variable {c : Coordinate} {root suffix suffix' : String} {directory : Place}

/-! ## The folder of an artifact -/

namespace Coordinate

/-- The folder of an artifact. -/
def folder (c : Coordinate) (root : String) : String :=
  Path.join root ((groupNames c.group ++ [c.artifact, c.version]).foldl Path.join "")

theorem WellFormed.contentPath_append_eq_join (hc : c.WellFormed) (root : String)
    (hsuffix : '/' ∉ suffix.toList) :
    c.contentPath root ++ suffix = Path.join (c.folder root) (c.fileName ++ suffix) := by
  have hway : c.wayTo suffix
      = (groupNames c.group ++ [c.artifact, c.version]) ++ [c.fileName ++ suffix] := by
    simp [wayTo]
  rw [contentPath_append, relativePath_append, hway, List.foldl_append, List.foldl_cons,
    List.foldl_nil, Path.join_join _ _ (hc.isName_fileName hsuffix).isAbsolute, folder]

theorem WellFormed.place_append (hc : c.WellFormed) (hsuffix : '/' ∉ suffix.toList) :
    place directory (c.contentPath root ++ suffix)
      = place directory (c.folder root) ++ [c.fileName ++ suffix] := by
  rw [hc.contentPath_append_eq_join root hsuffix, place_join (hc.isName_fileName hsuffix)]

theorem WellFormed.fileName?_append (hc : c.WellFormed) (hsuffix : '/' ∉ suffix.toList) :
    Path.fileName? (c.contentPath root ++ suffix) = some (c.fileName ++ suffix) := by
  rw [hc.contentPath_append_eq_join root hsuffix]
  exact (hc.isName_fileName hsuffix).fileName?_join _

theorem WellFormed.place_append_inj (hc : c.WellFormed) (hsuffix : '/' ∉ suffix.toList)
    (hsuffix' : '/' ∉ suffix'.toList)
    (h : place directory (c.contentPath root ++ suffix)
      = place directory (c.contentPath root ++ suffix')) : suffix = suffix' := by
  rw [hc.place_append hsuffix, hc.place_append hsuffix'] at h
  have hname := List.singleton_inj.1 (List.append_cancel_left h)
  exact (String.append_right_inj _).1 hname

/-- What a temporary file for one file of the artifact has behind the name of that file. -/
theorem WellFormed.eq_of_isTemporary {s : Surroundings} (hc : c.WellFormed)
    (hsuffix : '/' ∉ suffix.toList) (hsuffix' : '/' ∉ suffix'.toList)
    (h : IsTemporary s (place directory (c.contentPath root ++ suffix)) (c.fileName ++ suffix)
      (place directory (c.contentPath root ++ suffix'))) :
    ∃ rest, suffix' = suffix ++ (".tmp." ++ rest) := by
  obtain ⟨number, hplace⟩ := h
  rw [hc.place_append hsuffix, hc.place_append hsuffix', List.dropLast_concat] at hplace
  have hname := List.singleton_inj.1 (List.append_cancel_left hplace)
  refine ⟨s.mark ++ "." ++ String.ofList (Text.decimal number),
    (String.append_right_inj c.fileName).1 ?_⟩
  rw [hname, temporaryName]
  simp only [String.append_assoc]

theorem WellFormed.not_isBadName {d : Disk} {p : Place} (hc : c.WellFormed)
    (hsuffix : '/' ∉ suffix.toList)
    (h : d.locate directory (c.contentPath root ++ suffix) = .ok p) :
    isBadName (c.fileName ++ suffix).toList = false := by
  rw [hc.contentPath_append_eq_join root hsuffix] at h
  exact not_isBadName_of_locate (hc.isName_fileName hsuffix) h

/-- Where one file of an artifact is found another one is, if a file can have its name. -/
theorem WellFormed.locate_append {d : Disk} {p : Place} (hc : c.WellFormed)
    (hsuffix : '/' ∉ suffix.toList) (hsuffix' : '/' ∉ suffix'.toList)
    (hname : isBadName (c.fileName ++ suffix').toList = false)
    (h : d.locate directory (c.contentPath root ++ suffix) = .ok p) :
    d.locate directory (c.contentPath root ++ suffix')
      = .ok (place directory (c.contentPath root ++ suffix')) := by
  rw [hc.contentPath_append_eq_join root hsuffix] at h
  rw [hc.contentPath_append_eq_join root hsuffix']
  exact locate_sibling (hc.isName_fileName hsuffix) (hc.isName_fileName hsuffix') hname h

/-! ### The content, the sidecar and the lock -/

section Places

variable {s : Surroundings} (hc : c.WellFormed)
include hc

theorem WellFormed.fileName?_contentPath :
    Path.fileName? (c.contentPath root) = some c.fileName := by
  have h : Path.fileName? (c.contentPath root ++ "") = some (c.fileName ++ "") :=
    hc.fileName?_append (by decide)
  rwa [String.append_empty, String.append_empty] at h

theorem WellFormed.place_content_ne (hsuffix : '/' ∉ suffix.toList) (hne : suffix ≠ "") :
    place directory (c.contentPath root) ≠ place directory (c.contentPath root ++ suffix) := by
  intro h
  have happend : place directory (c.contentPath root ++ "")
      = place directory (c.contentPath root ++ suffix) := by
    rw [String.append_empty, h]
  exact hne (hc.place_append_inj (by decide) hsuffix happend).symm

theorem WellFormed.place_content_ne_sidecar :
    place directory (c.contentPath root) ≠ place directory (c.sidecarPath root) :=
  hc.place_content_ne (by decide : '/' ∉ ".meta.json".toList) (by decide)

theorem WellFormed.place_content_ne_lock :
    place directory (c.contentPath root) ≠ place directory (c.lockPath root) :=
  hc.place_content_ne (by decide : '/' ∉ ".lock".toList) (by decide)

theorem WellFormed.place_sidecar_ne_lock :
    place directory (c.sidecarPath root) ≠ place directory (c.lockPath root) := fun h =>
  absurd (hc.place_append_inj (by decide) (by decide) h) (by decide)

/-- The content never has the place of a temporary file. -/
theorem WellFormed.not_isTemporary_content (hsuffix : '/' ∉ suffix.toList) :
    ¬ IsTemporary s (place directory (c.contentPath root ++ suffix)) (c.fileName ++ suffix)
      (place directory (c.contentPath root)) := by
  intro h
  have happend : place directory (c.contentPath root)
      = place directory (c.contentPath root ++ "") := by rw [String.append_empty]
  rw [happend] at h
  obtain ⟨rest, hrest⟩ := hc.eq_of_isTemporary hsuffix (by decide) h
  simp at hrest

theorem WellFormed.not_isTemporary_self :
    ¬ IsTemporary s (place directory (c.contentPath root)) c.fileName
      (place directory (c.contentPath root)) := by
  have h : ¬ IsTemporary s (place directory (c.contentPath root ++ "")) (c.fileName ++ "")
      (place directory (c.contentPath root)) := hc.not_isTemporary_content (by decide)
  rwa [String.append_empty, String.append_empty] at h

/-- The sidecar does not have the place of a temporary file that is to become the content. -/
theorem WellFormed.not_isTemporary_sidecar :
    ¬ IsTemporary s (place directory (c.contentPath root)) c.fileName
      (place directory (c.sidecarPath root)) := by
  intro h
  have happend : IsTemporary s (place directory (c.contentPath root ++ "")) (c.fileName ++ "")
      (place directory (c.contentPath root ++ ".meta.json")) := by
    rw [String.append_empty, String.append_empty]
    exact h
  obtain ⟨rest, hrest⟩ := hc.eq_of_isTemporary (by decide) (by decide) happend
  have hlist := congrArg String.toList hrest
  simp at hlist

/-- The content is found where the lock is: its name is not longer. -/
theorem WellFormed.locate_content {d : Disk} {p : Place}
    (h : d.locate directory (c.lockPath root) = .ok p) :
    d.locate directory (c.contentPath root) = .ok (place directory (c.contentPath root)) := by
  have hname : isBadName (c.fileName ++ ".lock").toList = false :=
    hc.not_isBadName (by decide) h
  rw [String.toList_append] at hname
  have hempty : isBadName (c.fileName ++ "").toList = false := by
    rw [String.append_empty]
    exact isBadName_of_append hname
  have hfound := hc.locate_append (by decide) (by decide) hempty h
  rwa [String.append_empty] at hfound

/-- The sidecar is found where the content is, if a file can have its name. -/
theorem WellFormed.locate_sidecar {d : Disk} {p : Place}
    (hname : isBadName (c.fileName ++ ".meta.json").toList = false)
    (h : d.locate directory (c.contentPath root) = .ok p) :
    d.locate directory (c.sidecarPath root) = .ok (place directory (c.sidecarPath root)) := by
  rw [← String.append_empty (s := c.contentPath root)] at h
  exact hc.locate_append (by decide) (by decide) hname h

end Places

end Coordinate

/-! ## Locks, and files that may be missing -/

section Files

variable {s : Surroundings} {d : Disk} {path : String} {I : Disk → Prop} {Q : Unit → Disk → Prop}
  {E : Machine.Fault → Disk → Prop}

/-- Taking a lock changes no file but the lock, and finds it. -/
theorem passes_takeLock
    (hI : ∀ d', (∀ q, q ≠ place s.directory path → d'.content? q = d.content? q) → I d')
    (hQ : ∀ d', (∀ q, q ≠ place s.directory path → d'.content? q = d.content? q) →
      d'.locate s.directory path = .ok (place s.directory path) → Q () d')
    (hE : ∀ e d', (∀ q, q ≠ place s.directory path → d'.content? q = d.content? q) → E e d') :
    Passes (takeLock path) s d I Q E := by
  have hcreate {d₁ : Disk} (hsame : d.SameFiles d₁) :
      Passes (do if ← isFile path then return else createFile path) s d₁ I Q E := by
    refine .bind (.look ?_)
    split
    · rename_i hfile
      exact .pure (hQ d₁ (fun q _ => hsame q) (isFile_iff.1 hfile).1)
    · refine .createFile (fun time d₂ hd₂ => ?_) fun e => hE e d₁ fun q _ => hsame q
      obtain ⟨-, hother, hlocate⟩ := content?_create hd₂
      exact ⟨hI d₁ fun q _ => hsame q, hQ d₂ (fun q hq => (hother q hq).trans (hsame q)) hlocate⟩
  unfold takeLock
  split
  · exact .bind (.makeDirectories (fun d₁ h => hI d₁ fun q _ => h q) (fun d₁ h => hcreate h)
      fun e d₁ h => hE e d₁ fun q _ => h q)
  · exact hcreate (SameFiles.refl d)

/-- Removing a file changes no other one, and leaves none where it is looked for. -/
theorem passes_removeIfThere (hI : I d)
    (hQ : ∀ d', (∀ q, q ≠ place s.directory path → d'.content? q = d.content? q) →
      ((∃ p, d.locate s.directory path = .ok p) →
        d'.content? (place s.directory path) = none) → Q () d')
    (hE : ∀ e, E e d) : Passes (Repository.removeIfThere path) s d I Q E := by
  refine .bind (.attempt (.step (fun d' hd' => ⟨hI, .pure (hQ d' (fun q hq => ?_) fun _ => ?_)⟩)
    fun e he => ?_))
  · rw [content?_remove hd', if_neg hq]
  · rw [content?_remove hd', if_pos rfl]
  · cases e with
    | notFound =>
      refine .pure (hQ d (fun _ _ => rfl) ?_)
      rintro ⟨p, hlocate⟩
      rw [← locate_eq hlocate]
      exact content?_of_remove_eq_notFound hlocate he
    | _ => exact .throw (hE _)

end Files

/-! ## Soundness -/

/-- Whether a disk has a sidecar of an artifact that records a content. -/
structure Recorded (c : Coordinate) (root : String) (directory : Place) (d : Disk)
    (content : Bytes) : Prop where
  /-- A file can have the name of the sidecar, so that it is found where the content is. -/
  name : isBadName (c.fileName ++ ".meta.json").toList = false
  sidecar : ∃ sidecar m, d.content? (place directory (c.sidecarPath root)) = some sidecar
    ∧ Metadata.parse? sidecar = some m ∧ m.sha256 = (Fingerprint.ofBytes content).hex

/-- Whether a content that a disk has for an artifact is the last one that was published, and is
recorded in the sidecar. -/
def Sound (c : Coordinate) (root : String) (directory : Place) (d : Disk) (last : Option Bytes) :
    Prop :=
  ∀ content, d.content? (place directory (c.contentPath root)) = some content →
    last = some content ∧ Recorded c root directory d content

namespace Sound

variable {d d' : Disk} {last : Option Bytes}

theorem of_none (h : d.content? (place directory (c.contentPath root)) = none) :
    Sound c root directory d last := by
  intro content hcontent
  rw [h] at hcontent
  cases hcontent

theorem congr (h : Sound c root directory d last)
    (hcontent : d'.content? (place directory (c.contentPath root))
      = d.content? (place directory (c.contentPath root)))
    (hsidecar : d'.content? (place directory (c.sidecarPath root))
      = d.content? (place directory (c.sidecarPath root))) : Sound c root directory d' last := by
  intro content hpresent
  rw [hcontent] at hpresent
  obtain ⟨hlast, hname, sidecar, m, hfile, hparse⟩ := h content hpresent
  exact ⟨hlast, hname, sidecar, m, hsidecar.trans hfile, hparse⟩

theorem of_lock (hc : c.WellFormed) (h : Sound c root directory d last)
    (hother : ∀ q, q ≠ place directory (c.lockPath root) → d'.content? q = d.content? q) :
    Sound c root directory d' last :=
  h.congr (hother _ hc.place_content_ne_lock) (hother _ hc.place_sidecar_ne_lock)

end Sound

/-! ## Storing and removing -/

/-- What is known about the surroundings of a call: relative paths are seen from a directory, the
mark is part of a name, and the clock shows a number of 64 bits. -/
structure Regular (directory : Place) (s : Surroundings) : Prop where
  directory : s.directory = directory
  mark : '/' ∉ s.mark.toList
  clock : ∀ n, s.clock n < UInt64.size

/-- Whether a file is one to be stored as an artifact: not one that the repository keeps for the
artifact itself and writes while it is stored, and not too long for its size to be recorded. -/
structure Storable (c : Coordinate) (root : String) (directory : Place) (source : String)
    (d : Disk) : Prop where
  ne_sidecar : place directory source ≠ place directory (c.sidecarPath root)
  ne_lock : place directory source ≠ place directory (c.lockPath root)
  size : ∀ content, d.content? (place directory source) = some content →
    content.length < UInt64.size

section Calls

variable {r : Repository} {s : Surroundings} {d : Disk} {last : Option Bytes} {source text : String}
  {description : Option String}

/-- What is left of the artifact without its content need not be recorded. -/
theorem passes_remove (hc : c.WellFormed) (hs : s.directory = directory)
    (h : Sound c r.root directory d last) :
    Passes (r.remove c) s d (fun d' => Sound c r.root directory d' last)
      (fun _ d' => Sound c r.root directory d' last)
      fun _ d' => Sound c r.root directory d' last := by
  subst hs
  refine .bind (.mapFault (passes_takeLock (fun _ h' => h.of_lock hc h') (fun d₁ hd₁ hlock => ?_)
    fun _ _ h' => h.of_lock hc h'))
  have hsound : Sound c r.root s.directory d₁ last := h.of_lock hc hd₁
  refine .bind (.mapFault (passes_removeIfThere hsound (fun d₂ hd₂ hgone => ?_) fun _ => hsound))
  have hnone : d₂.content? (place s.directory (c.contentPath r.root)) = none :=
    hgone ⟨_, hc.locate_content hlock⟩
  refine .mapFault (passes_removeIfThere (.of_none hnone) (fun d₃ hd₃ _ => .of_none ?_)
    fun _ => .of_none hnone)
  rw [hd₃ _ hc.place_content_ne_sidecar, hnone]

/-- Saving the sidecar leaves the artifact without a content if it had none. -/
theorem passes_save {m : Metadata} {I : Disk → Prop} {Q : Unit → Disk → Prop}
    {E : Fault → Disk → Prop} (hc : c.WellFormed) (hmark : '/' ∉ s.mark.toList)
    (hnone : d.content? (place s.directory (c.contentPath r.root)) = none)
    (hI : ∀ d', d'.content? (place s.directory (c.contentPath r.root)) = none → I d')
    (hQ : ∀ d', d'.content? (place s.directory (c.contentPath r.root)) = none →
      isBadName (c.fileName ++ ".meta.json").toList = false →
      d'.content? (place s.directory (c.sidecarPath r.root)) = some m.encode →
      (∀ q content, q ≠ place s.directory (c.sidecarPath r.root) →
        d.content? q = some content → d'.content? q = some content) → Q () d')
    (hE : ∀ e d', d'.content? (place s.directory (c.contentPath r.root)) = none → E e d') :
    Passes (m.save (c.sidecarPath r.root)) s d I Q E := by
  have hname : Path.fileName? (c.sidecarPath r.root) = some (c.fileName ++ ".meta.json") :=
    hc.fileName?_append (by decide)
  have habsent {d' : Disk} (h : Beside (IsTemporary s (place s.directory (c.sidecarPath r.root))
      (c.fileName ++ ".meta.json")) d d') :
      d'.content? (place s.directory (c.contentPath r.root)) = none := by
    rw [h.other _ (hc.not_isTemporary_content (by decide)), hnone]
  refine .mapFault (passes_replaceWith (P := fun draft => draft = ⟨m.encode, none⟩)
    hname hmark (fun d' _ => .pure ⟨rfl, rfl⟩) (fun d' h => hI d' (habsent h))
    (fun _ d' h => hE _ d' (habsent h)) ?_)
  rintro draft d₁ d₂ rfl - hlocate hreplaced
  refine hQ d₂ ?_ (hc.not_isBadName (by decide) hlocate) hreplaced.content hreplaced.files
  rw [hreplaced.other _ hc.place_content_ne_sidecar (hc.not_isTemporary_content (by decide)),
    hnone]

/-- With the old content gone, the sidecar is there before the new content, which is then the one
that the sidecar records. -/
theorem passes_publish {m : Metadata} {content : Bytes} {I : Disk → Prop} (hc : c.WellFormed)
    (hmark : '/' ∉ s.mark.toList)
    (hnone : d.content? (place s.directory (c.contentPath r.root)) = none)
    (hsource : place s.directory source = place s.directory (c.contentPath r.root)
      ∨ d.content? (place s.directory source) = some content)
    (hsidecar : place s.directory source ≠ place s.directory (c.sidecarPath r.root))
    (hparse : Metadata.parse? m.encode = some m)
    (hsha : m.sha256 = (Fingerprint.ofBytes content).hex)
    (hI : ∀ d', d'.content? (place s.directory (c.contentPath r.root)) = none → I d') :
    Passes (do
        m.save (c.sidecarPath r.root)
        mapFault .file (replaceWith (c.contentPath r.root) do return ⟨← readFile source, none⟩)
        return c.contentPath r.root) s d I
      (fun path d' => path = c.contentPath r.root
        ∧ d'.content? (place s.directory (c.contentPath r.root)) = some content
        ∧ Recorded c r.root s.directory d' content)
      fun _ d' => I d' := by
  refine .bind (passes_save hc hmark hnone hI
    (fun d₂ hnone₂ hbad hsaved hkept => ?_) fun _ d' => hI d')
  have habsent {d' : Disk} (h : Beside (IsTemporary s (place s.directory (c.contentPath r.root))
      c.fileName) d₂ d') : d'.content? (place s.directory (c.contentPath r.root)) = none := by
    rw [h.other _ hc.not_isTemporary_self, hnone₂]
  refine .bind (.mapFault (passes_replaceWith (P := fun draft => draft = ⟨content, none⟩)
    hc.fileName?_contentPath hmark (fun d' h => ?_) (fun d' h => hI d' (habsent h))
    (fun _ d' h => hI d' (habsent h)) ?_))
  · -- the source is read once more, and still holds what the sidecar records
    refine .bind (.readFile (fun found hfound => .pure ⟨rfl, ?_⟩) fun _ _ => rfl)
    obtain ⟨-, hfound⟩ := read_eq_ok_iff.1 hfound
    have hthere : d'.content? (place s.directory source) = some content := by
      rcases hsource with hsame | hthere
      · rw [hsame, habsent h] at hfound
        cases hfound
      · exact h.files _ _ (hkept _ _ hsidecar hthere)
    rw [hthere] at hfound
    rw [Option.some.inj hfound]
  · rintro draft d₃ d₄ rfl - - hpublished
    refine .pure ⟨rfl, hpublished.content, hbad, m.encode, m, ?_, hparse, hsha⟩
    rw [hpublished.other _ hc.place_content_ne_sidecar.symm hc.not_isTemporary_sidecar, hsaved]

/-- Only the last step of storing publishes anything, and it publishes what the source holds. Until
then nothing but the lock is changed, or the artifact has no content. -/
theorem passes_storing {I : Disk → Prop} (hparse : Coordinate.parse text = .ok c)
    (hs : Regular directory s) (hsource : Storable c r.root directory source d)
    (hlock : ∀ d', (∀ q, q ≠ place directory (c.lockPath r.root) → d'.content? q = d.content? q) →
      I d')
    (hnone : ∀ d', d'.content? (place directory (c.contentPath r.root)) = none → I d') :
    Passes (r.store c source description) s d I
      (fun path d' => path = c.contentPath r.root
        ∧ ∃ content, d.content? (place directory source) = some content
          ∧ d'.content? (place directory (c.contentPath r.root)) = some content
          ∧ Recorded c r.root directory d' content)
      fun _ d' => I d' := by
  obtain rfl := hs.directory
  obtain ⟨-, hc⟩ := Coordinate.parse_eq_ok_iff.1 hparse
  refine .bind (.mapFault (passes_takeLock hlock (fun d₁ hd₁ hlocate => ?_) fun _ => hlock))
  refine .bind (.mapFault (.readFile (fun content hcontent => ?_) fun _ _ => hlock d₁ hd₁))
  obtain ⟨-, hcontent⟩ := read_eq_ok_iff.1 hcontent
  have hfirst : d.content? (place s.directory source) = some content := by
    rw [← hd₁ _ hsource.ne_lock, hcontent]
  refine .bind (.now fun n => ?_)
  refine .bind (.mapFault (passes_removeIfThere (hlock d₁ hd₁) (fun d₂ hd₂ hgone => ?_)
    fun _ => hlock d₁ hd₁))
  refine (passes_publish hc hs.mark (hgone ⟨_, hc.locate_content hlocate⟩) ?_
    hsource.ne_sidecar (Metadata.parse?_encode hparse (hsource.size _ hfirst) (hs.clock n)) rfl
    hnone).mono (fun _ => id) ?_ fun _ _ => id
  · by_cases hsame : place s.directory source = place s.directory (c.contentPath r.root)
    · exact .inl hsame
    · exact .inr (by rw [hd₂ _ hsame, hcontent])
  · rintro path d' ⟨hpath, hpublished⟩
    exact ⟨hpath, content, hfirst, hpublished⟩

theorem passes_store (hparse : Coordinate.parse text = .ok c) (hs : Regular directory s)
    (hsource : Storable c r.root directory source d) (h : Sound c r.root directory d last) :
    Passes (r.store c source description) s d (fun d' => Sound c r.root directory d' last)
      (fun _ d' => Sound c r.root directory d' (d.content? (place directory source)))
      fun _ d' => Sound c r.root directory d' last := by
  obtain ⟨-, hc⟩ := Coordinate.parse_eq_ok_iff.1 hparse
  refine (passes_storing hparse hs hsource (fun _ h' => h.of_lock hc h') fun _ => .of_none).mono
    (fun _ => id) ?_ fun _ _ => id
  rintro path d' ⟨-, content, hfirst, hpublished, hrecorded⟩ found hfound
  obtain rfl : content = found := Option.some.inj (hpublished.symm.trans hfound)
  exact ⟨hfirst, hrecorded⟩

/-! ## Fetching -/

/-- A content that is found has its sidecar next to it. -/
theorem Sound.read {content : Bytes} (h : Sound c root directory d last) (hc : c.WellFormed)
    (hread : d.read directory (c.contentPath root) = .ok content) :
    last = some content ∧ ∃ sidecar m, d.read directory (c.sidecarPath root) = .ok sidecar
      ∧ Metadata.parse? sidecar = some m ∧ m.sha256 = (Fingerprint.ofBytes content).hex := by
  obtain ⟨hlocate, hcontent⟩ := read_eq_ok_iff.1 hread
  obtain ⟨hlast, hname, sidecar, m, hsidecar, hrecords⟩ := h content hcontent
  exact ⟨hlast, sidecar, m, read_eq_ok_iff.2 ⟨hc.locate_sidecar hname hlocate, hsidecar⟩, hrecords⟩

theorem passes_metadata? {sidecar : Bytes} {m : Metadata} {I : Disk → Prop}
    {E : Fault → Disk → Prop} (hread : d.read s.directory (c.sidecarPath r.root) = .ok sidecar)
    (hparse : Metadata.parse? sidecar = some m) :
    Passes (r.metadata? c) s d I (fun found d' => found = some m ∧ d' = d) E := by
  refine .bind (.attempt (.readFile (fun content hcontent => ?_) fun e he => ?_))
  · rw [hread] at hcontent
    obtain rfl := Except.ok.inj hcontent
    dsimp only
    rw [hparse]
    exact .pure ⟨rfl, rfl⟩
  · rw [hread] at he
    cases he

theorem passes_contains {I : Disk → Prop} {E : Fault → Disk → Prop} (hc : c.WellFormed)
    (h : Sound c r.root s.directory d last) :
    Passes (r.contains c) s d I (fun found d' => d' = d
      ∧ (found = true → d.isFile s.directory (c.contentPath r.root) = true)
      ∧ (found = false → d.isFile s.directory (c.contentPath r.root) = true →
        c.isSnapshot = true)) E := by
  refine .bind (.look ?_)
  cases hfile : d.isFile s.directory (c.contentPath r.root) with
  | false => exact .pure ⟨rfl, nofun, fun _ => nofun⟩
  | true =>
    obtain ⟨hlocate, content, hcontent⟩ := isFile_iff.1 hfile
    obtain ⟨-, sidecar, m, hsidecar, hparse, -⟩ := h.read hc (read_eq_ok_iff.2 ⟨hlocate, hcontent⟩)
    refine .bind (.attempt ((passes_metadata? (E := fun _ _ => False) hsidecar hparse).mono
      (fun _ => id) ?_ fun _ _ => False.elim))
    rintro found d' ⟨rfl, rfl⟩
    dsimp only
    split
    · rename_i hsnapshot
      exact .bind (.now fun n => .pure ⟨rfl, fun _ => rfl, fun _ _ => hsnapshot⟩)
    · exact .pure ⟨rfl, fun _ => rfl, nofun⟩

/-- A content that is there is fetched, unless it is one that is only there for a while. -/
theorem passes_fetch (hc : c.WellFormed) (h : Sound c r.root s.directory d last) :
    Passes (r.fetch c) s d (fun _ => False)
      (fun path d' => d' = d ∧ path = c.contentPath r.root
        ∧ ∃ content, last = some content ∧ d.read s.directory path = .ok content)
      fun e d' => d' = d ∧ e = .notFound c
        ∧ (d.isFile s.directory (c.contentPath r.root) = true → c.isSnapshot = true) := by
  refine .bind ((passes_contains (E := fun _ _ => False) hc h).mono (fun _ => id) ?_
    fun _ _ => False.elim)
  rintro found d' ⟨rfl, hfound, hmissing⟩
  cases found with
  | false => exact .bind (.throw ⟨rfl, rfl, hmissing rfl⟩)
  | true =>
    obtain ⟨hlocate, content, hcontent⟩ := isFile_iff.1 (hfound rfl)
    have hread := read_eq_ok_iff.2 ⟨hlocate, hcontent⟩
    obtain ⟨hlast, sidecar, m, hsidecar, hparse, hsha⟩ := h.read hc hread
    refine .bind ((passes_metadata? (E := fun _ _ => False) hsidecar hparse).mono
      (fun _ => id) ?_ fun _ _ => False.elim)
    rintro recorded d₁ ⟨rfl, rfl⟩
    refine .bind (.mapFault (.readFile (fun found hfound => ?_) fun e he => ?_))
    · rw [hread] at hfound
      obtain rfl := Except.ok.inj hfound
      dsimp only
      rw [if_pos hsha.symm]
      exact .pure ⟨rfl, rfl, content, hlast, hread⟩
    · rw [hread] at he
      cases he

end Calls

end Jarwright.Store
