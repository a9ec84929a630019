import Jarwright.Proofs.Machine.Locality
import Jarwright.Proofs.Machine.Removal
import Mathlib.Data.List.Nodup
import Mathlib.Data.List.Perm.Subperm
import Mathlib.Data.Nat.Find

/-!
# Files are replaced wholly or not at all

However replacing a file ends, it has either happened or not: when it fails, nothing is left of it
but directories on the way, and when it succeeds, the file has the content that was produced. The
name of the temporary file is searched among those with a number, and of these one is always free,
whatever is on the disk.

A path with a step up in it may lead through its own end. Then making the directories on the way
makes one of that end, if nothing was there.

* `exists_firstFree`, `perform_createNextTo`: the search for a free name ends with the first one;
* `folderWay`: where directories may be made;
* `Replacement`: how replacing a file can end;
* `replacement_replaceWith`: it ends in one of these ways, and every search for a name ends.
-/

namespace Jarwright.Machine

open Disk Machine.Action

variable {s : Surroundings} {w w' : World} {d : Disk} {directory p : Place}
  {path folder name : String} {number n : Nat}

/-! ## Numbered names -/

/-- The path under which the temporary file with a number is tried. -/
def temporaryPath (s : Surroundings) (folder name : String) (number : Nat) : String :=
  Path.join folder (temporaryName name s.mark number)

/-- What is at a place other than the root is one of the nodes. -/
theorem mem_of_get? {node : Node} (hp : p ≠ []) (h : d.get? p = some node) :
    p ∈ d.nodes.map Prod.fst := by
  have hempty : p.isEmpty = false := by simpa using hp
  rw [get?, hempty, if_neg Bool.false_ne_true] at h
  obtain ⟨before, rest, hnodes, -⟩ := List.lookup_eq_some_iff.1 h
  simp [hnodes]

theorem temporaryName_injective (name mark : String) :
    Function.Injective (temporaryName name mark) := by
  intro number number' h
  have hdigits : Text.decimal number = Text.decimal number' :=
    String.ofList_injective ((String.append_right_inj _).1 h)
  have hvalue := congrArg (Nat.ofDigitChars 10 · 0) hdigits
  simpa [Text.decimal, Nat.ofDigitChars_toDigits] using hvalue

theorem place_temporaryPath (hname : Path.IsName name) (hmark : '/' ∉ s.mark.toList)
    (folder : String) (number : Nat) : place s.directory (temporaryPath s folder name number)
      = place s.directory folder ++ [temporaryName name s.mark number] :=
  place_join (isName_temporaryName hname hmark number)

/-- Whether a number is the first from the serial number on whose name is free, and not further away
than there are places on the disk. -/
structure FirstFree (s : Surroundings) (folder name : String) (w : World) (number : Nat) :
    Prop where
  start : w.serial ≤ number
  bound : number ≤ w.serial + w.disk.nodes.length
  taken : ∀ m, w.serial ≤ m → m < number →
    w.disk.holds s.directory (temporaryPath s folder name m) = true
  free : w.disk.holds s.directory (temporaryPath s folder name number) = false

/-- What is found behind different names is at different places, so no more names can be taken than
there are places on the disk. -/
theorem exists_free (hname : Path.IsName name) (hmark : '/' ∉ s.mark.toList) (folder : String)
    (w : World) : ∃ k, k ≤ w.disk.nodes.length
      ∧ w.disk.holds s.directory (temporaryPath s folder name (w.serial + k)) = false := by
  by_contra hall
  let tried (k : Nat) : Place := place s.directory (temporaryPath s folder name (w.serial + k))
  have hinjective : Function.Injective tried := by
    intro k k' h
    simp only [tried, place_temporaryPath hname hmark] at h
    have hnumber := temporaryName_injective name s.mark
      (List.singleton_inj.1 (List.append_cancel_left h))
    omega
  have hsubset : (List.range (w.disk.nodes.length + 1)).map tried ⊆ w.disk.nodes.map Prod.fst := by
    intro p hp
    obtain ⟨k, hk, rfl⟩ := List.mem_map.1 hp
    have hheld : w.disk.holds s.directory (temporaryPath s folder name (w.serial + k)) = true := by
      by_contra hfree
      exact hall ⟨k, Nat.le_of_lt_succ (List.mem_range.1 hk), by simpa using hfree⟩
    obtain ⟨-, node, hnode⟩ := holds_iff.1 hheld
    have hnil : tried k ≠ [] := by
      simp [tried, place_temporaryPath hname hmark]
    exact mem_of_get? hnil hnode
  have hlength := ((List.Nodup.map hinjective List.nodup_range).subperm hsubset).length_le
  rw [List.length_map, List.length_map, List.length_range] at hlength
  omega

theorem exists_firstFree (hname : Path.IsName name) (hmark : '/' ∉ s.mark.toList)
    (folder : String) (w : World) : ∃ number, FirstFree s folder name w number := by
  classical
  have hex := exists_free hname hmark folder w
  obtain ⟨hbound, hfree⟩ := Nat.find_spec hex
  refine ⟨w.serial + Nat.find hex, Nat.le_add_right _ _, Nat.add_le_add_left hbound _,
    fun m hstart hm => ?_, hfree⟩
  have hearlier : m - w.serial < Nat.find hex := by omega
  have hnot := Nat.find_min hex hearlier
  rw [Nat.add_sub_cancel' hstart] at hnot
  by_contra hheld
  exact hnot ⟨by omega, by simpa using hheld⟩

theorem follow_ne_alreadyExists {names : List (List Char)} :
    d.follow p names ≠ .error .alreadyExists := by
  induction names generalizing p with
  | nil => simp [follow]
  | cons name names ih =>
    rw [follow]
    split
    · simp
    · simp
    · split
      · exact ih
      · split
        · exact ih
        · split
          · simp
          · exact ih

/-- A file is found to exist just if something is there. -/
theorem create_eq_alreadyExists_iff {now : Nat} :
    d.create directory now path = .error .alreadyExists ↔ d.holds directory path = true := by
  have hlocate : d.locate directory path ≠ .error .alreadyExists := by
    unfold locate
    split
    · simp
    · exact follow_ne_alreadyExists
  unfold create Disk.holds Disk.node
  cases hplace : d.locate directory path with
  | error e =>
    rw [hplace] at hlocate
    simpa [bind, Except.bind, Except.toBool] using hlocate
  | ok q =>
    simp only [bind, Except.bind]
    cases d.get? q with
    | none => simp [pure, Except.pure, throw, throwThe, MonadExceptOf.throw, Except.toBool]
    | some node => simp [pure, Except.pure, throw, throwThe, MonadExceptOf.throw, Except.toBool]

@[simp] theorem perform_nextSerial {ε : Type} :
    (nextSerial : Action ε Nat).perform s w = (.ok w.serial, { w with serial := w.serial + 1 }) :=
  rfl

/-- One name is tried, and the search goes on only if it is taken. -/
theorem perform_createNextTo_succ : (createNextTo folder name (n + 1)).perform s w
    = match (createFile (temporaryPath s folder name w.serial)).perform s
        { w with serial := w.serial + 1 } with
      | (.ok (), w') => (.ok (temporaryPath s folder name w.serial), w')
      | (.error .alreadyExists, w') => (createNextTo folder name n).perform s w'
      | (.error e, w') => (.error e, w') := by
  rw [createNextTo]
  simp only [perform_bind, perform_nextSerial, perform_read, perform_attempt]
  rcases hcreate : (createFile (temporaryPath s folder name w.serial)).perform s
    { w with serial := w.serial + 1 } with ⟨e | u, w'⟩
  · rw [temporaryPath] at hcreate
    rw [hcreate]
    cases e <;> rfl
  · rw [temporaryPath] at hcreate
    rw [hcreate]
    rfl

theorem perform_createFile_of_held (h : w.disk.holds s.directory path = true) :
    (createFile path).perform s w = (.error .alreadyExists, w) := by
  have hends : Ends (createFile path) s w (fun _ _ => False)
      fun e w' => e = .alreadyExists ∧ w' = w := by
    refine .createFile (fun now d hcreate => ?_) fun now e hcreate => ⟨?_, rfl⟩
    · cases hcreate.symm.trans (create_eq_alreadyExists_iff.2 h)
    · exact Except.error.inj (hcreate.symm.trans (create_eq_alreadyExists_iff.2 h))
  rcases hends.perform_cases with ⟨_, _, -, h⟩ | ⟨_, _, hrun, rfl, rfl⟩
  · exact h.elim
  · exact hrun

theorem perform_createFile_ne (h : w.disk.holds s.directory path = false) :
    ((createFile path).perform s w).1 ≠ .error .alreadyExists := by
  have hends : Ends (createFile path) s w (fun _ _ => True) fun e _ => e ≠ .alreadyExists := by
    refine .createFile (fun _ _ _ => trivial) fun now e hcreate he => ?_
    rw [he, create_eq_alreadyExists_iff, h] at hcreate
    cases hcreate
  rcases hends.perform_cases with ⟨_, _, hrun, -⟩ | ⟨_, _, hrun, hne⟩
  · simp [hrun]
  · simpa [hrun] using hne

/-- The search ends with the first free name, however many may be tried from there on. -/
theorem perform_createNextTo (h : FirstFree s folder name w number) (hn : number < w.serial + n) :
    (createNextTo folder name n).perform s w
      = (do
        createFile (temporaryPath s folder name number)
        return temporaryPath s folder name number).perform s { w with serial := number + 1 } := by
  induction n generalizing w with
  | zero => exact absurd h.start (by omega)
  | succ n ih =>
    rw [perform_createNextTo_succ]
    rcases Nat.eq_or_lt_of_le h.start with rfl | hlater
    · have hne := perform_createFile_ne (w := { w with serial := w.serial + 1 }) h.free
      rw [perform_bind]
      split
      · rename_i hrun
        rw [hrun]
        rfl
      · rename_i hrun
        exact absurd (congrArg Prod.fst hrun) hne
      · rename_i hrun
        rw [hrun]
    · rw [perform_createFile_of_held (w := { w with serial := w.serial + 1 })
        (h.taken w.serial (Nat.le_refl _) hlater)]
      refine ih ⟨hlater, ?_, fun m hm => h.taken m (Nat.le_of_succ_le hm), h.free⟩ ?_
      · exact Nat.le_trans h.bound (Nat.add_le_add_right (Nat.le_succ _) _)
      · dsimp only
        omega

/-! ## The way to the folder -/

/-- The places that are looked at on the way to the folder of a file. -/
def folderWay (directory : Place) (path : String) : List Place :=
  wayFrom (if Path.isAbsolute path then [] else directory) (Path.steps path).dropLast

theorem filter_steps (path : String) :
    (Path.steps path).filter Path.isStep = Path.steps path := by
  rw [Path.steps, List.filter_filter]
  simp

section Way

variable (habsolute : Path.isAbsolute folder = Path.isAbsolute path)
  (hsteps : Path.steps path = Path.steps folder ++ [name.toList])
include habsolute hsteps

theorem mem_folderWay_iff (directory : Place) :
    p ∈ folderWay directory path ↔ p ∈ way directory folder := by
  rw [folderWay, hsteps, List.dropLast_concat, mem_wayFrom_iff, mem_way_iff, filter_steps,
    habsolute]

/-- A path without a step up does not lead through its own end. -/
theorem place_not_mem_folderWay (hup : ['.', '.'] ∉ Path.steps path) :
    place directory path ∉ folderWay directory path := by
  intro hmem
  rw [mem_folderWay_iff habsolute hsteps] at hmem
  obtain ⟨front, hfront, heq⟩ := mem_way_iff.1 hmem
  have hfrontUp : ['.', '.'] ∉ front := fun h =>
    hup (hsteps ▸ List.mem_append_left _ (hfront.subset h))
  rw [place, foldl_descend hup, foldl_descend hfrontUp, habsolute] at heq
  have hlength := congrArg List.length (List.append_cancel_left heq)
  rw [List.length_map, List.length_map, hsteps, List.length_append,
    List.length_singleton] at hlength
  exact absurd hfront.length_le (by omega)

end Way

/-! ## All or nothing -/

/-- How replacing a file can end. -/
inductive Replacement (path : String) (produce : Action Fault Draft) (s : Surroundings)
    (w : World) : Except Fault Unit → World → Prop
  /-- The path names no file. -/
  | unnamed {e : Fault} {w' : World} (hname : Path.fileName? path = none)
      (hfiles : w.disk.SameFiles w'.disk) : Replacement path produce s w (.error e) w'
  /-- Nothing has changed, but for new directories on the way to the folder. -/
  | failed {e : Fault} {w' : World}
      (hrest : (Change.within [] (folderWay s.directory path)).allows w.disk w'.disk)
      (hfile : ['.', '.'] ∉ Path.steps path →
        w'.disk.get? (place s.directory path) = w.disk.get? (place s.directory path)) :
      Replacement path produce s w (.error e) w'
  /-- The file has the content that was produced once there was a temporary file, and nothing else
  has changed, but for new directories on the way to the folder. -/
  | replaced {folder name temporary : String} {draft : Draft} {w₁ w₂ w' : World}
      (hopened : (openTemporary folder name).perform s w = (.ok temporary, w₁))
      (hdraft : produce.perform s w₁ = (.ok draft, w₂)) (hfault : draft.fault = none)
      (hread : w'.disk.read s.directory path = .ok draft.content)
      (hrest : (Change.within [place s.directory path] (folderWay s.directory path)).allows
        w.disk w'.disk) :
      Replacement path produce s w (.ok ()) w'

theorem ends_replaceWith_unnamed {produce : Action Fault Draft}
    (hname : Path.fileName? path = none) :
    Ends (replaceWith path produce) s w (fun _ _ => False)
      fun _ w' => w.disk.SameFiles w'.disk := by
  have hmade (parent : String) {x : Action Fault Unit}
      (hx : ∀ w', w.disk.SameFiles w'.disk → Ends x s w' (fun _ _ => False)
        fun _ w' => w.disk.SameFiles w'.disk) :
      Ends (do makeDirectories parent; x) s w (fun _ _ => False)
        fun _ w' => w.disk.SameFiles w'.disk := by
    refine .bind ((growing_makeDirectories.ends w).mono ?_ fun _ _ h => h.2)
    exact fun _ w' h => hx w' h.1.2
  unfold replaceWith
  rw [hname]
  dsimp only
  split
  · exact .bind (.throw (SameFiles.refl _))
  · exact .bind (.pure (hmade _ fun _ h => .bind (.throw h)))
  · exact .bind (.pure (hmade _ fun _ h => .bind (.throw h)))

theorem ends_replaceWith (path : String) {produce : Action Fault Draft} (w : World)
    (hmark : '/' ∉ s.mark.toList) (hproduce : Moves .still s produce fun _ => True) :
    Ends (replaceWith path produce) s w (fun _ => Replacement path produce s w (.ok ()))
      fun e => Replacement path produce s w (.error e) := by
  cases hname : Path.fileName? path with
  | none =>
    exact (ends_replaceWith_unnamed hname).mono (fun _ _ h => h.elim) fun _ _ h => .unnamed hname h
  | some name =>
    have hisname := Path.isName_of_fileName? hname
    obtain ⟨folder, habsolute, hsteps, heq⟩ := replaceWith_eq_bind produce hname
    have hplace := place_of_fileName? s.directory habsolute hsteps hisname
    have hopens := ends_openTemporary (w := w) hisname hmark
      fun q hq => (mem_folderWay_iff habsolute hsteps s.directory).2 hq
    have hfailed (e : Fault) (w' : World)
        (hrest : (Change.within [] (folderWay s.directory path)).allows w.disk w'.disk) :
        Replacement path produce s w (.error e) w' := by
      refine .failed hrest fun hup => (hrest _ List.not_mem_nil).resolve_right ?_
      exact fun h => place_not_mem_folderWay habsolute hsteps hup h.1
    rw [heq]
    refine .bind ((hopens.and (.of_perform (fun _ _ => id) fun _ _ _ => trivial)).mono ?_ ?_)
    · rintro temporary w₁ ⟨⟨d₀, hmade, hholding, number, hnumber⟩, hopened⟩
      refine (ends_finishWith hproduce (place_temporary_ne hnumber hplace) hholding).mono ?_
        fun e w₂ hsame => ?_
      · rintro - w₃ ⟨draft, w₂, hdraft, hfault, hread, hother⟩
        refine .replaced hopened hdraft hfault hread fun q hq => ?_
        rw [hother q (List.ne_of_not_mem_cons hq)]
        exact hmade q List.not_mem_nil
      · exact hfailed e w₂ ((Change.within _ _).trans hmade fun q _ => .inl (hsame q))
    · exact fun e w₁ h => hfailed e w₁ h.1

/-- Whatever is on the disk and whatever content is produced, replacing a file fails and leaves
everything as it was, or it gives the file the content that was produced and leaves all others as
they were. In both cases directories on the way may be new, and no temporary file is left. Every
search for a name for a temporary file ends with the first one that is free. -/
theorem replacement_replaceWith (path : String) (produce : Action Fault Draft) (s : Surroundings)
    (w : World) (hmark : '/' ∉ s.mark.toList) (hproduce : Moves .still s produce fun _ => True) :
    Replacement path produce s w ((replaceWith path produce).perform s w).1
        ((replaceWith path produce).perform s w).2
      ∧ ∀ (folder name : String) (w₁ : World), Path.IsName name →
        ∃ number, FirstFree s folder name w₁ number ∧ ∀ n, number < w₁.serial + n →
          (createNextTo folder name n).perform s w₁
            = (do
              createFile (temporaryPath s folder name number)
              return temporaryPath s folder name number).perform s
                { w₁ with serial := number + 1 } := by
  refine ⟨?_, fun folder name w₁ hname => ?_⟩
  · exact Ends.perform_result (R := Replacement path produce s w)
      (ends_replaceWith path w hmark hproduce)
  · obtain ⟨number, hfirst⟩ := exists_firstFree hname hmark folder w₁
    exact ⟨number, hfirst, fun n hn => perform_createNextTo hfirst hn⟩

/-- A process that sees paths from the root, at a time of zero. -/
def idle : Surroundings where
  directory := []
  temporaries := "/tmp"
  environment := fun _ => none
  clock := fun _ => 0
  run := fun _ _ _ d => (none, d)
  serve := fun _ _ => .unreachable
  mark := "7"
  freshName := fun _ => "fresh"

/-- A disk on which the first name for a temporary file is taken. -/
def occupiedWorld : World :=
  .ofDisk ⟨[(["a"], .directory), (["a", "b.tmp.7.0"], .file [9] 0)]⟩

/-- Two bytes, written without a fault. -/
def sampleDraft : Action Fault Draft := pure ⟨[1, 2], none⟩

/-- What comes of writing them there. -/
def sampleReplacement : Except Fault Unit × World :=
  (replaceWith "a/b" sampleDraft).perform idle occupiedWorld

/-- The file that is in the way stays. -/
theorem replacement_replaceWith_occupied :
    '/' ∉ idle.mark.toList
      ∧ (Moves .still idle sampleDraft fun _ => True)
      ∧ Replacement "a/b" sampleDraft idle occupiedWorld sampleReplacement.1 sampleReplacement.2
      ∧ sampleReplacement.2.disk = ⟨[(["a"], .directory), (["a", "b.tmp.7.0"], .file [9] 0),
        (["a", "b"], .file [1, 2] 0)]⟩ := by
  have hmark : '/' ∉ idle.mark.toList := by decide
  have hproduce : Moves .still idle sampleDraft fun _ => True := .pure trivial
  exact ⟨hmark, hproduce,
    (replacement_replaceWith "a/b" sampleDraft idle occupiedWorld hmark hproduce).1,
    by decide +kernel⟩

/-- The way to the folder of `b/../b` leads through the file that is to be written. So a writer that
fails may leave a directory where nothing was. -/
theorem replaceWith_leaves_directory :
    ¬ ∀ (path : String) (draft : Draft) (s : Surroundings) (w : World) (e : Fault),
      '/' ∉ s.mark.toList → draft.fault = some e →
      ((replaceWith path (pure draft)).perform s w).1 = .error e →
      ((replaceWith path (pure draft)).perform s w).2.disk.get? (place s.directory path)
        = w.disk.get? (place s.directory path) := by
  intro h
  have hresult : ((replaceWith "b/../b" (pure ⟨[1], some .notEmpty⟩)).perform idle
      (.ofDisk .empty)).1 = .error .notEmpty := by
    rfl
  have hsame := h "b/../b" _ idle (.ofDisk .empty) .notEmpty (by decide) rfl hresult
  revert hsame
  decide +kernel

end Jarwright.Machine
