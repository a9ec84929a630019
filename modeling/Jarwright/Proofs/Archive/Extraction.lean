import Jarwright.Proofs.Archive.Enclosure
import Jarwright.Proofs.Machine.Atomicity
import Jarwright.Proofs.Machine.Walks

/-!
# Extraction stays below its root

Files of an archive are put below a root one after the other. What comes of one of them is a `Turn`:
its name is refused, or it is kept as it is, or it is written, or something cannot be accessed. A
`Run` takes the files in turn until one fails. Whatever comes of it, it has taken no step that is
not `Confined` to the root and the way there.

* `turn_extractEntry`, `run_extractFiles`: the turns are those of the program;
* `Run.confined`, `Run.admits`, `Run.lists`, `Run.keeps`: what is known of a run;
* `Orderly`: what is known of the files that are put below a root, with the worlds in between.
-/

namespace Jarwright.Archive

open Machine Machine.Action Machine.Disk

variable {s : Surroundings} {w w' w₁ w₂ : World} {source root name path : String}
  {overwrite : Overwrite} {entries files : List Entry} {e : Entry}

/-! ## Steps -/

/-- What may happen to a disk in one step: a file is written below a root, or a directory is made
where nothing was, below the root or on the way to it. -/
inductive Confined (directory : Place) (root : String) (d : Disk) : Disk → Prop
  | file {p : Place} (content : Bytes) (now : Nat) (hbelow : place directory root <+: p)
      (hne : p ≠ place directory root) (hget : d.get? p ≠ some .directory) :
      Confined directory root d (d.put p (.file content now))
  | directory {p : Place} (hway : p ∈ way directory root ∨ place directory root <+: p)
      (hnone : d.get? p = none) : Confined directory root d (d.put p .directory)

/-- What may happen to a disk in one step while one file is written. -/
def Writing (directory : Place) (root path : String) (d d' : Disk) : Prop :=
  Confined directory root d d' ∧ ∀ q, q ≠ place directory path → d'.content? q = d.content? q

theorem writing_write {directory : Place} {d d' : Disk} {now : Nat} {content : Bytes}
    (h : Encloses name)
    (hwrite : d.write directory now (Path.join root name) content = .ok d') :
    Writing directory root (Path.join root name) d d' := by
  have hcontent := content?_write hwrite
  obtain ⟨hlocate, hget, rfl⟩ := write_eq_ok hwrite
  -- the file is looked up in a directory at the root, so it is not the root itself
  have hroot := directory_of_locate_join h.relative hlocate
  have hne : place directory (Path.join root name) ≠ place directory root := by
    intro heq
    rw [heq] at hget
    exact hget hroot
  refine ⟨.file content now (h.prefix_place directory root) hne hget, fun q hq => ?_⟩
  rw [hcontent q, if_neg hq]

theorem writing_makeDirectory {directory : Place} {d d' : Disk} (h : Encloses name)
    (hup : Upwards (Path.join root name) path) (hmade : d.makeDirectory directory path = .ok d') :
    Writing directory root (Path.join root name) d d' := by
  have hsame := sameFiles_of_makeDirectory hmade
  obtain ⟨hnone, rfl⟩ := makeDirectory_eq_ok hmade
  exact ⟨.directory (h.mem_way hup.place_mem_way) hnone, fun q _ => hsame q⟩

/-- While a file is written the other ones are as they were. -/
theorem content?_of_walks_writing {q : Place}
    (h : Walks (Writing s.directory root path) w w') (hq : q ≠ place s.directory path) :
    w'.disk.content? q = w.disk.content? q :=
  h.allows (c := .leaving q) fun _ _ hstep => hstep.2 q hq

/-! ## Turns -/

/-- Whether what a path leads to was changed at the time of a stamp or after it; whatever is there
is up to date if the stamp names no time. -/
def UpToDate (s : Surroundings) (w : World) (path : String) (stamp : Stamp) : Prop :=
  ∃ time, w.changeTime? s path = some time ∧ (stamp.isValid = true → stamp.seconds ≤ time)

/-- What comes of putting a file below a root, and the world after it. -/
inductive Turn (s : Surroundings) (root : String) (overwrite : Overwrite) (e : Entry) (w : World) :
    Except Fault Extracted → World → Prop
  | refused (h : ¬ Encloses e.name) : Turn s root overwrite e w (.error (.outside e.name root)) w
  | kept (h : Encloses e.name)
      (hkept : overwrite = .ifOlder ∧ UpToDate s w (Path.join root e.name) e.time) :
      Turn s root overwrite e w (.ok ⟨e.name, Path.join root e.name, false⟩) w
  | written {w' : World} (h : Encloses e.name)
      (hdue : ¬ (overwrite = .ifOlder ∧ UpToDate s w (Path.join root e.name) e.time))
      (hwalk : Walks (Writing s.directory root (Path.join root e.name)) w w')
      (hread : w'.disk.read s.directory (Path.join root e.name) = .ok e.content) :
      Turn s root overwrite e w (.ok ⟨e.name, Path.join root e.name, true⟩) w'
  | failed {w' : World} {path : String} (h : Encloses e.name)
      (hdue : ¬ (overwrite = .ifOlder ∧ UpToDate s w (Path.join root e.name) e.time))
      (hwalk : Walks (Writing s.directory root (Path.join root e.name)) w w')
      (hpath : Upwards (Path.join root e.name) path) :
      Turn s root overwrite e w (.error (.file path)) w'

/-- Opening an archive leaves everything as it is. -/
theorem ends_openEntries (source : String) (s : Surroundings) (w : World) :
    Ends (openEntries source) s w (fun _ w' => w' = w) fun _ w' => w' = w := by
  -- what archives look like does not matter here
  obtain ⟨parse, hparse⟩ : ∃ parse, Zip.parse? = parse := ⟨_, rfl⟩
  unfold openEntries
  rw [hparse]
  refine .bind (.attempt (.readFile (fun content _ => ?_) fun fault _ => ?_))
  · dsimp only
    split
    · exact .pure rfl
    · exact .throw rfl
  · cases fault with
    | _ => exact .throw rfl

theorem ends_isIntact :
    Ends (isIntact source entries) s w (fun _ w' => w' = w) fun _ _ => False :=
  .bind (.attempt ((ends_openEntries source s w).mono (fun _ _ h => .pure h) fun _ _ h => .pure h))

theorem ends_changeTime? {ε : Type} {Q : Option Nat → World → Prop} {E : ε → World → Prop}
    (h : Q (w.changeTime? s path) w) : Ends (changeTime? path : Action ε (Option Nat)) s w Q E :=
  ⟨h⟩

theorem ends_isRecent {stamp : Stamp} :
    Ends (isRecent path stamp) s w
      (fun recent w' => (recent = true ↔ UpToDate s w path stamp) ∧ w' = w) fun _ _ => False := by
  refine .bind (ends_changeTime? ?_)
  cases htime : w.changeTime? s path with
  | none => exact .pure ⟨by simp [UpToDate, htime], rfl⟩
  | some time => exact .pure ⟨by simp [UpToDate, htime, Classical.or_iff_not_imp_left], rfl⟩

theorem ends_isKept {stamp : Stamp} :
    Ends (isKept overwrite path stamp) s w
      (fun kept w' => (kept = true ↔ overwrite = .ifOlder ∧ UpToDate s w path stamp) ∧ w' = w)
      fun _ _ => False := by
  cases overwrite with
  | always => exact .pure ⟨by simp, rfl⟩
  | ifOlder => exact ends_isRecent.mono (fun _ _ h => ⟨by simp [h.1], h.2⟩) fun _ _ h => h

/-- The file gets one more content. -/
theorem ends_writeFile {content : Bytes} (h : Encloses name)
    (hwalk : Walks (Writing s.directory root (Path.join root name)) w₁ w) :
    Ends (mapFault (fun _ => Fault.file (Path.join root name))
        (writeFile (Path.join root name) content)) s w
      (fun _ w' => Walks (Writing s.directory root (Path.join root name)) w₁ w'
        ∧ w'.disk.read s.directory (Path.join root name) = .ok content)
      fun fault w' => Walks (Writing s.directory root (Path.join root name)) w₁ w'
        ∧ fault = .file (Path.join root name) := by
  refine .mapFault ((Ends.walkFile fun now d hwrite => writing_write h hwrite).mono ?_ ?_)
  · rintro - w₂ ⟨hstep, now, hwrite⟩
    refine ⟨hwalk.trans hstep, read_eq_ok_iff.2 ⟨?_, ?_⟩⟩
    · exact locate_mono (keepsDirectories_write hwrite) (write_eq_ok hwrite).1
    · rw [content?_write hwrite, if_pos rfl]
  · rintro - w₂ rfl
    exact ⟨hwalk, rfl⟩

/-- Making the directories above a file touches no file. -/
theorem ends_makeFolderOf (h : Encloses name) :
    Ends (makeFolderOf (Path.join root name)) s w
      (fun _ w' => Walks (Writing s.directory root (Path.join root name)) w w')
      fun fault w' => Walks (Writing s.directory root (Path.join root name)) w w'
        ∧ ∃ path, fault = .file path ∧ Upwards (Path.join root name) path := by
  have hself : Upwards (Path.join root name) (Path.join root name) := ⟨rfl, List.prefix_refl _⟩
  unfold makeFolderOf
  split
  · exact .pure (Walks.refl w)
  · rename_i folder hfolder
    have hup := hself.parent hfolder
    refine .mapFault ((Ends.walkDirectories (P := Upwards (Path.join root name))
      (fun _ _ => Upwards.parent) (fun _ _ _ => writing_makeDirectory h) hup).mono
      (fun _ _ hwalk => hwalk) fun _ _ hwalk => ⟨hwalk, folder, rfl, hup⟩)

/-- Writing a file leaves the other ones as they are. -/
theorem ends_writeContent {content : Bytes} (h : Encloses name) :
    Ends (writeContent source (Path.join root name) entries content) s w
      (fun _ w' => Walks (Writing s.directory root (Path.join root name)) w w'
        ∧ w'.disk.read s.directory (Path.join root name) = .ok content)
      fun fault w' => Walks (Writing s.directory root (Path.join root name)) w w'
        ∧ fault = .file (Path.join root name) := by
  refine .bind ((ends_writeFile h (Walks.refl w)).mono ?_ fun _ _ => id)
  rintro - w₁ ⟨hwalk, hread⟩
  cases content with
  | nil => exact .pure ⟨hwalk, hread⟩
  | cons byte content =>
    refine .bind (ends_isIntact.mono ?_ fun _ _ => False.elim)
    rintro intact w₂ rfl
    cases intact with
    | false => exact .bind (.throw ⟨hwalk, rfl⟩)
    | true => exact ends_writeFile h hwalk

/-- What comes of putting a file below a root is a turn. -/
theorem turn_extractEntry :
    Ends (extractEntry source root entries overwrite e) s w
      (fun y => Turn s root overwrite e w (.ok y))
      fun fault => Turn s root overwrite e w (.error fault) := by
  unfold extractEntry
  by_cases h : Encloses e.name
  · rw [enclosedPath?_of_encloses h]
    refine .bind (ends_isKept.mono ?_ fun _ _ => False.elim)
    rintro kept w₁ ⟨hkept, rfl⟩
    cases kept with
    | true => exact .pure (.kept h (hkept.1 rfl))
    | false =>
      have hdue := fun hrecent => Bool.false_ne_true (hkept.2 hrecent)
      refine .bind ((ends_makeFolderOf h).mono ?_ ?_)
      · rintro - w₂ hfolder
        refine .bind ((ends_writeContent h).mono ?_ ?_)
        · rintro - w₃ ⟨hwalk, hread⟩
          exact .pure (.written h hdue (hfolder.trans hwalk) hread)
        · rintro fault w₃ ⟨hwalk, rfl⟩
          exact .failed h hdue (hfolder.trans hwalk) ⟨rfl, List.prefix_refl _⟩
      · rintro fault w₂ ⟨hwalk, path, rfl, hup⟩
        exact .failed h hdue hwalk hup
  · rw [enclosedPath?_of_not_encloses h]
    exact .throw (.refused h)

/-- Whatever comes of a turn, its steps are confined. -/
theorem Turn.confined {r : Except Fault Extracted} (h : Turn s root overwrite e w r w') :
    Walks (Confined s.directory root) w w' := by
  cases h with
  | refused => exact Walks.refl w
  | kept => exact Walks.refl w
  | written _ _ hwalk => exact hwalk.mono fun _ _ => And.left
  | failed _ _ hwalk => exact hwalk.mono fun _ _ => And.left

/-- A name that is not enclosed is refused, and nothing happens. -/
theorem Turn.eq_of_not_encloses {r : Except Fault Extracted} (h : Turn s root overwrite e w r w')
    (hname : ¬ Encloses e.name) : r = .error (.outside e.name root) ∧ w' = w := by
  cases h with
  | refused => exact ⟨rfl, rfl⟩
  | kept h => exact absurd h hname
  | written h => exact absurd h hname
  | failed h => exact absurd h hname

/-- What is known of a file that was put below a root. -/
structure Settled (s : Surroundings) (root : String) (overwrite : Overwrite) (e : Entry)
    (w : World) (y : Extracted) (w' : World) : Prop where
  name : y.name = e.name
  path : y.path = Path.join root e.name
  kept_iff : y.written = false ↔ overwrite = .ifOlder ∧ UpToDate s w y.path e.time
  of_kept : y.written = false → w' = w
  of_written : y.written = true → w'.disk.read s.directory y.path = .ok e.content

theorem Turn.settled {y : Extracted} (h : Turn s root overwrite e w (.ok y) w') :
    Encloses e.name ∧ Settled s root overwrite e w y w' := by
  cases h with
  | kept h hkept => exact ⟨h, rfl, rfl, iff_of_true rfl hkept, fun _ => rfl, nofun⟩
  | written h hdue _ hread => exact ⟨h, rfl, rfl, iff_of_false nofun hdue, nofun, fun _ => hread⟩

/-- A turn changes no file but the one that it writes. -/
theorem Turn.content? {y : Extracted} {q : Place} (h : Turn s root overwrite e w (.ok y) w')
    (hq : y.written = true → place s.directory y.path ≠ q) :
    w'.disk.content? q = w.disk.content? q := by
  cases h with
  | kept => rfl
  | written _ _ hwalk => exact content?_of_walks_writing hwalk (hq rfl).symm

/-! ## Runs -/

/-- What comes of putting files below a root one after the other, until one fails, and the world
after it. -/
inductive Run (s : Surroundings) (root : String) (overwrite : Overwrite) :
    World → List Entry → Except Fault (List Extracted) → World → Prop
  | done (w : World) : Run s root overwrite w [] (.ok []) w
  | stopped {w w' : World} {e : Entry} {files : List Entry} {fault : Fault}
      (h : Turn s root overwrite e w (.error fault) w') :
      Run s root overwrite w (e :: files) (.error fault) w'
  | going {w w₁ w' : World} {e : Entry} {files : List Entry} {y : Extracted}
      {r : Except Fault (List Extracted)} (h : Turn s root overwrite e w (.ok y) w₁)
      (hrest : Run s root overwrite w₁ files r w') :
      Run s root overwrite w (e :: files) (r.map (y :: ·)) w'

namespace Run

variable {r : Except Fault (List Extracted)} {ys : List Extracted}

/-- Whatever comes of a run, its steps are confined. -/
theorem confined (h : Run s root overwrite w files r w') :
    Walks (Confined s.directory root) w w' := by
  induction h with
  | done w => exact Walks.refl w
  | stopped h => exact h.confined
  | going h _ ih => exact h.confined.trans ih

/-- If all names are enclosed, a run fails only where a file cannot be accessed. -/
theorem admits (h : Run s root overwrite w files r w') (hfiles : ∀ e ∈ files, Encloses e.name) :
    (∃ ys, r = .ok ys) ∨ ∃ path, r = .error (.file path)
      ∧ ∃ e ∈ files, Upwards (Path.join root e.name) path := by
  induction h with
  | done => exact .inl ⟨[], rfl⟩
  | stopped h =>
    cases h with
    | refused hname => exact absurd (hfiles _ List.mem_cons_self) hname
    | failed _ _ _ hpath => exact .inr ⟨_, rfl, _, List.mem_cons_self, hpath⟩
  | going _ _ ih =>
    obtain ⟨ys, rfl⟩ | ⟨path, rfl, e', he', hpath⟩ :=
      ih fun e he => hfiles e (List.mem_cons_of_mem _ he)
    · exact .inl ⟨_, rfl⟩
    · exact .inr ⟨path, rfl, e', List.mem_cons_of_mem _ he', hpath⟩

/-- A run lists the files in order, and the names of all of them are enclosed. -/
theorem lists (h : Run s root overwrite w files (.ok ys) w') :
    (∀ e ∈ files, Encloses e.name)
      ∧ ys.map (fun y => (y.name, y.path)) = files.map fun e => (e.name, Path.join root e.name) := by
  generalize hr : Except.ok ys = r at h
  induction h generalizing ys with
  | done =>
    obtain rfl := Except.ok.inj hr
    exact ⟨fun _ he => absurd he List.not_mem_nil, rfl⟩
  | stopped => cases hr
  | going h _ ih =>
    obtain ⟨zs, rfl, rfl⟩ := map_eq_ok.1 hr.symm
    obtain ⟨hname, hsettled⟩ := h.settled
    obtain ⟨hnames, hlist⟩ := ih rfl
    refine ⟨List.forall_mem_cons.2 ⟨hname, hnames⟩, ?_⟩
    rw [List.map_cons, List.map_cons, hlist, hsettled.name, hsettled.path]

/-- A run changes no files but those that it writes. -/
theorem keeps {q : Place} (h : Run s root overwrite w files (.ok ys) w')
    (hq : ∀ y ∈ ys, y.written = true → place s.directory y.path ≠ q) :
    w'.disk.content? q = w.disk.content? q := by
  generalize hr : Except.ok ys = r at h
  induction h generalizing ys with
  | done => rfl
  | stopped => cases hr
  | going h _ ih =>
    obtain ⟨zs, rfl, rfl⟩ := map_eq_ok.1 hr.symm
    rw [List.forall_mem_cons] at hq
    rw [ih hq.2 rfl, h.content? hq.1]

end Run

/-! ## The program -/

section Performing

variable (source root : String) (entries : List Entry) (overwrite : Overwrite) (s : Surroundings)

theorem perform_extractFiles_cons (e : Entry) (files : List Entry) (w : World) :
    (extractFiles source root entries overwrite (e :: files)).perform s w
      = match (extractEntry source root entries overwrite e).perform s w with
        | (.ok y, w₁) => (((extractFiles source root entries overwrite files).perform s w₁).1.map
            (y :: ·), ((extractFiles source root entries overwrite files).perform s w₁).2)
        | (.error fault, w₁) => (.error fault, w₁) := by
  unfold extractFiles
  rw [List.mapM_cons, perform_bind]
  simp only [perform_bind_pure]
  rcases (extractEntry source root entries overwrite e).perform s w with ⟨_ | _, w₁⟩ <;> rfl

/-- Files are put below a root before those behind them. -/
theorem perform_extractFiles_append (before after : List Entry) (w : World) :
    (extractFiles source root entries overwrite (before ++ after)).perform s w
      = match (extractFiles source root entries overwrite before).perform s w with
        | (.ok ys, w₁) => (((extractFiles source root entries overwrite after).perform s w₁).1.map
            (ys ++ ·), ((extractFiles source root entries overwrite after).perform s w₁).2)
        | (.error fault, w₁) => (.error fault, w₁) := by
  unfold extractFiles
  rw [List.mapM_append, perform_bind]
  simp only [perform_bind_pure]
  rcases (before.mapM (extractEntry source root entries overwrite)).perform s w with
    ⟨_ | _, w₁⟩ <;> rfl

theorem turn_perform_extractEntry (e : Entry) (w : World) :
    Turn s root overwrite e w ((extractEntry source root entries overwrite e).perform s w).1
      ((extractEntry source root entries overwrite e).perform s w).2 :=
  Ends.perform_result (R := Turn s root overwrite e w) turn_extractEntry

/-- What comes of the files of an archive is a run. -/
theorem run_extractFiles (files : List Entry) (w : World) :
    Run s root overwrite w files
      ((extractFiles source root entries overwrite files).perform s w).1
      ((extractFiles source root entries overwrite files).perform s w).2 := by
  induction files generalizing w with
  | nil => exact .done w
  | cons e files ih =>
    have hturn := turn_perform_extractEntry source root entries overwrite s e w
    rw [perform_extractFiles_cons]
    rcases hrun : (extractEntry source root entries overwrite e).perform s w with ⟨_ | _, w₁⟩
    · rw [hrun] at hturn
      exact .stopped hturn
    · rw [hrun] at hturn
      exact .going hturn (ih w₁)

theorem perform_extract (select : String → Bool) (w : World) :
    (extract source root overwrite select).perform s w
      = match ((openEntries source).perform s w).1 with
        | .ok entries => (extractFiles source root entries overwrite
            (selectedFiles select entries)).perform s w
        | .error fault => (.error fault, w) := by
  unfold extract
  rw [perform_bind]
  obtain ⟨entries, w₁, hrun, rfl⟩ | ⟨fault, w₁, hrun, rfl⟩ :=
    (ends_openEntries source s w).perform_cases
  · rw [hrun]
  · rw [hrun]

/-- What comes of putting files of an open archive below a root. -/
structure Orderly (w : World) (files : List Entry) (r : Except Fault (List Extracted))
    (w' : World) : Prop where
  /-- At the first name that is not enclosed the files before it are there, and nothing else has
  happened. -/
  refuses : ∀ before e after, files = before ++ e :: after →
    (∀ e ∈ before, Encloses e.name) → ¬ Encloses e.name →
    (∃ ys, (extractFiles source root entries overwrite before).perform s w = (.ok ys, w')
        ∧ r = .error (.outside e.name root))
      ∨ ∃ path, (extractFiles source root entries overwrite before).perform s w
          = (.error (.file path), w')
        ∧ r = .error (.file path) ∧ ∃ e ∈ before, Upwards (Path.join root e.name) path
  /-- Where all names are enclosed only an access fails. -/
  admits : (∀ e ∈ files, Encloses e.name) →
    (∃ ys, r = .ok ys) ∨ ∃ path, r = .error (.file path)
      ∧ ∃ e ∈ files, Upwards (Path.join root e.name) path
  lists : ∀ ys, r = .ok ys →
    ys.map (fun y => (y.name, y.path)) = files.map fun e => (e.name, Path.join root e.name)
  turns : ∀ ys, r = .ok ys → ∀ before e after, files = before ++ e :: after →
    ∃ zs y rest w₁ w₂, ys = zs ++ y :: rest
      ∧ (extractFiles source root entries overwrite before).perform s w = (.ok zs, w₁)
      ∧ Settled s root overwrite e w₁ y w₂
      ∧ (extractFiles source root entries overwrite after).perform s w₂ = (.ok rest, w')
  /-- The other files on the disk are as they were. -/
  keeps : ∀ ys, r = .ok ys → ∀ q, (∀ y ∈ ys, y.written = true → place s.directory y.path ≠ q) →
    w'.disk.content? q = w.disk.content? q

variable {source root entries overwrite s}

/-- Before a name that is not enclosed only an access fails. -/
theorem refuses_extractFiles {before : List Entry} (after : List Entry) {e : Entry} {w : World}
    (hbefore : ∀ e ∈ before, Encloses e.name) (he : ¬ Encloses e.name) :
    (∃ ys w', (extractFiles source root entries overwrite before).perform s w = (.ok ys, w')
        ∧ (extractFiles source root entries overwrite (before ++ e :: after)).perform s w
          = (.error (.outside e.name root), w'))
      ∨ ∃ path w', (extractFiles source root entries overwrite before).perform s w
          = (.error (.file path), w')
        ∧ (extractFiles source root entries overwrite (before ++ e :: after)).perform s w
          = (.error (.file path), w')
        ∧ ∃ e ∈ before, Upwards (Path.join root e.name) path := by
  have hadmits := (run_extractFiles source root entries overwrite s before w).admits hbefore
  rw [perform_extractFiles_append]
  rcases hrun : (extractFiles source root entries overwrite before).perform s w with ⟨r, w₁⟩
  rw [hrun] at hadmits
  obtain ⟨ys, rfl⟩ | ⟨path, rfl, hpath⟩ := hadmits
  · obtain ⟨hresult, hworld⟩ :=
      (turn_perform_extractEntry source root entries overwrite s e w₁).eq_of_not_encloses he
    refine .inl ⟨ys, w₁, rfl, ?_⟩
    dsimp only
    rw [perform_extractFiles_cons]
    rcases hturn : (extractEntry source root entries overwrite e).perform s w₁ with ⟨r, w₂⟩
    rw [hturn] at hresult hworld
    obtain rfl := hresult
    obtain rfl := hworld
    rfl
  · exact .inr ⟨path, w₁, rfl, rfl, hpath⟩

/-- If nothing fails, every file has its turn after those before it. -/
theorem turns_extractFiles {before after : List Entry} {e : Entry} {w : World}
    {ys : List Extracted}
    (h : ((extractFiles source root entries overwrite (before ++ e :: after)).perform s w).1
      = .ok ys) :
    ∃ zs y rest w₁ w₂, ys = zs ++ y :: rest
      ∧ (extractFiles source root entries overwrite before).perform s w = (.ok zs, w₁)
      ∧ Settled s root overwrite e w₁ y w₂
      ∧ (extractFiles source root entries overwrite after).perform s w₂ = (.ok rest,
        ((extractFiles source root entries overwrite (before ++ e :: after)).perform s w).2) := by
  rw [perform_extractFiles_append] at h ⊢
  rcases hrun : (extractFiles source root entries overwrite before).perform s w with ⟨_ | zs, w₁⟩
  · rw [hrun] at h
    cases h
  · rw [hrun] at h
    dsimp only at h ⊢
    rw [perform_extractFiles_cons] at h ⊢
    have hturn := turn_perform_extractEntry source root entries overwrite s e w₁
    rcases hentry : (extractEntry source root entries overwrite e).perform s w₁ with ⟨_ | y, w₂⟩
    · rw [hentry] at h
      cases h
    · rw [hentry] at h hturn
      dsimp only at h ⊢
      obtain ⟨all, hall, rfl⟩ := map_eq_ok.1 h
      obtain ⟨rest, hrest, rfl⟩ := map_eq_ok.1 hall
      exact ⟨zs, y, rest, w₁, w₂, rfl, rfl, hturn.settled.2, Prod.ext hrest rfl⟩

theorem orderly_extractFiles (files : List Entry) (w : World) :
    Orderly source root entries overwrite s w files
      ((extractFiles source root entries overwrite files).perform s w).1
      ((extractFiles source root entries overwrite files).perform s w).2 := by
  have hrun := run_extractFiles source root entries overwrite s files w
  refine ⟨?_, hrun.admits, fun ys hys => ?_, ?_, fun ys hys q hq => ?_⟩
  · rintro before e after rfl hbefore he
    obtain ⟨ys, w', hdone, hall⟩ | ⟨path, w', hdone, hall, hpath⟩ :=
      refuses_extractFiles after hbefore he
    · rw [hall]
      exact .inl ⟨ys, hdone, rfl⟩
    · rw [hall]
      exact .inr ⟨path, hdone, rfl, hpath⟩
  · rw [hys] at hrun
    exact hrun.lists.2
  · rintro ys hys before e after rfl
    exact turns_extractFiles hys
  · rw [hys] at hrun
    exact hrun.keeps hq

end Performing

/-- The entries of a sample: one that is there already, one that is not, and one that leads out. -/
def sampleEntries : List Entry := [.file "a" [1], .file "b/c" [2], .file "../d" [3]]

/-- A world with the archive of some entries, and a file of the year 1982. -/
def archiveWorld (entries : List Entry) : World :=
  .ofDisk ⟨[(["in"], .file (Zip.encode entries) 0), (["out"], .directory),
    (["out", "a"], .file [9] 400000000)]⟩

/-- What comes of extracting the sample. -/
def sampleExtraction (select : String → Bool) : Except Fault (List Extracted) × World :=
  (extract "in" "out" .ifOlder select).perform idle (archiveWorld sampleEntries)

/-- Entries of which the first is a file where the second needs a directory. -/
def obstructedEntries : List Entry := [.file "a" [1], .file "a/b" [2], .file "../d" [3]]

end Jarwright.Archive
