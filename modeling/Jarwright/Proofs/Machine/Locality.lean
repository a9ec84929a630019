import Jarwright.Proofs.Machine.Ways

/-!
# Changes in one folder

Whoever writes files in one folder makes the directories on the way to it, and may leave files there;
everywhere else the disk is as it was. Temporary files are gone in the end, whether replacing a file
succeeds or fails.

* `Change.within`: the way of changing disks that touches some files and makes directories on some
  ways, where nothing was;
* `within_makeDirectories`, `within_replaceWith`: making directories and replacing files do no more;
* `ends_openTemporary`, `ends_finishWith`: the two halves of replacing a file, before and after
  there is a temporary file.
-/

namespace Jarwright.Machine

open Disk Machine.Action

/-- The change that touches files at some places, and makes directories at others. -/
def Change.within (files ways : List Place) : Change where
  allows d d' := ∀ q, q ∉ files →
    d'.get? q = d.get? q ∨ q ∈ ways ∧ d.get? q = none ∧ d'.get? q = some .directory
  refl _ _ _ := .inl rfl
  trans h h' q hq := by
    rcases h q hq with hsame | ⟨hway, hnone, hmade⟩
    · rcases h' q hq with hsame' | ⟨hway, hnone, hmade⟩
      · exact .inl (hsame'.trans hsame)
      · exact .inr ⟨hway, hsame ▸ hnone, hmade⟩
    · rcases h' q hq with hsame' | ⟨-, hnone', -⟩
      · exact .inr ⟨hway, hnone, hsame'.trans hmade⟩
      · rw [hmade] at hnone'
        cases hnone'

/-- Both of two ways of changing disks. -/
def Change.both (c c' : Change) : Change where
  allows d d' := c.allows d d' ∧ c'.allows d d'
  refl d := ⟨c.refl d, c'.refl d⟩
  trans h h' := ⟨c.trans h.1 h'.1, c'.trans h.2 h'.2⟩

theorem Moves.both {ε α : Type} {c c' : Change} {s : Surroundings} {x : Action ε α} {Q : α → Prop}
    (h : Moves c s x Q) (h' : Moves c' s x Q) : Moves (c.both c') s x Q :=
  ⟨fun w => ((h.ends w).and (h'.ends w)).mono (fun _ _ ha => ⟨⟨ha.1.1, ha.2.1⟩, ha.1.2⟩)
    fun _ _ he => he⟩

variable {s : Surroundings} {w : World} {d d' d₀ : Disk} {directory p q : Place}
  {path folder name temporary : String} {files ways : List Place}

/-! ## Steps -/

namespace Disk

theorem within_of_other (h : p ∈ files) (hother : ∀ q, q ≠ p → d'.get? q = d.get? q) :
    (Change.within files ways).allows d d' := fun q hq =>
  .inl (hother q fun heq => hq (heq ▸ h))

theorem within_put {node : Node} (hnil : p ≠ []) (h : p ∈ files) :
    (Change.within files ways).allows d (d.put p node) :=
  within_of_other h fun q hq => by rw [get?_put hnil, if_neg hq]

theorem within_erase (hnil : p ≠ []) (h : p ∈ files) :
    (Change.within files ways).allows d (d.erase p) :=
  within_of_other h fun q hq => by rw [get?_erase hnil, if_neg hq]

end Disk

/-- Whether a path is met on the way up from another one. -/
def Upwards (path path' : String) : Prop :=
  Path.isAbsolute path' = Path.isAbsolute path ∧ Path.steps path' <+: Path.steps path

theorem Upwards.parent {path' parent : String} (h : Upwards path path')
    (hparent : Path.parent? path' = some parent) : Upwards path parent := by
  obtain ⟨habsolute, hsteps⟩ := Path.parent?_eq_some hparent
  exact ⟨habsolute.trans h.1, hsteps.trans h.2⟩

theorem Upwards.place_mem_way {path' : String} (h : Upwards path path') :
    place directory path' ∈ way directory path :=
  mem_way_iff.2 ⟨_, h.2, by rw [place, h.1]⟩

theorem Upwards.way_subset {path' : String} (h : Upwards path path')
    (hq : q ∈ way directory path') : q ∈ way directory path := by
  obtain ⟨front, hfront, rfl⟩ := mem_way_iff.1 hq
  exact mem_way_iff.2 ⟨front, hfront.trans h.2, by rw [h.1]⟩

/-- What has the steps of a folder is met on the way up from it. -/
theorem upwards_of_steps {parent : String} (hname : Path.IsName name)
    (habsolute : Path.isAbsolute parent = Path.isAbsolute (Path.join folder name))
    (hsteps : Path.steps (Path.join folder name) = Path.steps parent ++ [name.toList]) :
    Upwards folder parent := by
  rw [Path.steps_join folder hname.isAbsolute, hname.steps] at hsteps
  rw [hname.isAbsolute_join] at habsolute
  exact ⟨habsolute, List.append_cancel_right hsteps ▸ List.prefix_refl _⟩

/-- Making directories makes those on the way and no others. -/
theorem within_makeDirectories (hways : ∀ q ∈ way s.directory path, q ∈ ways) :
    Moves (.within files ways) s (makeDirectories path) fun _ => True := by
  have hself : Upwards path path := ⟨rfl, List.prefix_refl _⟩
  refine .makeDirectoriesOf (fun _ _ => Upwards.parent) (fun path' d d' h hmade q _ => ?_) hself
  obtain ⟨hnone, rfl⟩ := makeDirectory_eq_ok hmade
  have hnil : place s.directory path' ≠ [] := ne_nil_of_none hnone
  rw [get?_put hnil]
  split
  · rename_i hq
    exact .inr ⟨hways q (hq ▸ h.place_mem_way), hq ▸ hnone, rfl⟩
  · exact .inl rfl

theorem within_createFile (h : place s.directory path ∈ files) :
    Moves (.within files ways) s (createFile path) fun _ => True := by
  refine .createFile trivial fun now d d' hcreate => ?_
  obtain ⟨-, hnone, rfl⟩ := create_eq_ok hcreate
  exact within_put (ne_nil_of_none hnone) h

theorem within_removeFile (h : place s.directory path ∈ files) :
    Moves (.within files ways) s (removeFile path) fun _ => True := by
  refine .step trivial fun d d' hremove => ?_
  obtain ⟨⟨content, hcontent⟩, rfl⟩ := remove_eq_ok hremove
  exact within_erase (ne_nil_of_content? hcontent) h

/-! ## Temporary files -/

theorem Ends.nextSerial {ε : Type} {Q : Nat → World → Prop} {E : ε → World → Prop}
    (h : Q w.serial { w with serial := w.serial + 1 }) :
    Ends (Machine.nextSerial : Action ε Nat) s w Q E := ⟨h⟩

/-- Whether there is one file more than on another disk, for the time being. -/
structure Holding (temporary : String) (directory : Place) (d₀ d : Disk) : Prop where
  fresh : d₀.get? (place directory temporary) = none
  locate : d₀.locate directory temporary = .ok (place directory temporary)
  file : ∃ content written, d.get? (place directory temporary) = some (.file content written)
  other : ∀ q, q ≠ place directory temporary → d.get? q = d₀.get? q

/-- Of the names that are tried the first free one is taken, and nothing else changes. -/
theorem ends_createNextTo (hname : Path.IsName name) (hmark : '/' ∉ s.mark.toList) (n : Nat)
    (w : World) :
    Ends (createNextTo folder name n) s w
      (fun temporary w' => Holding temporary s.directory w.disk w'.disk
        ∧ ∃ number, place s.directory temporary
          = place s.directory folder ++ [temporaryName name s.mark number])
      fun _ w' => w'.disk = w.disk := by
  induction n generalizing w with
  | zero => exact .throw rfl
  | succ n ih =>
    refine .bind (.nextSerial (.bind (.read (.bind (.attempt (.createFile ?_ ?_))))))
    · intro now d hcreate
      obtain ⟨hlocate, hnone, rfl⟩ := create_eq_ok hcreate
      have hnil := ne_nil_of_get? (d := w.disk) (by rw [hnone]; simp)
      refine .pure ⟨⟨hnone, hlocate, ⟨[], now, ?_⟩, fun q hq => ?_⟩, w.serial, ?_⟩
      · rw [get?_put hnil, if_pos rfl]
      · rw [get?_put hnil, if_neg hq]
      · exact place_join (isName_temporaryName hname hmark w.serial)
    · intro now e _
      cases e with
      | alreadyExists => exact ih { w with serial := w.serial + 1 }
      | _ => exact .throw rfl

namespace Holding

variable (h : Holding temporary directory d₀ d)
include h

theorem keepsDirectories : d₀.KeepsDirectories d := by
  intro r hr
  have hne : r ≠ place directory temporary := by
    rintro rfl
    rw [h.fresh] at hr
    cases hr
  rw [h.other r hne, hr]

/-- The file can be written. -/
theorem write {now : Nat} {content : Bytes}
    (hwrite : d.write directory now temporary content = .ok d') :
    Holding temporary directory d₀ d' := by
  obtain ⟨-, hdirectory, rfl⟩ := write_eq_ok hwrite
  have hnil := ne_nil_of_get? hdirectory
  refine ⟨h.fresh, h.locate, ⟨content, now, ?_⟩, fun q hq => ?_⟩
  · rw [get?_put hnil, if_pos rfl]
  · rw [get?_put hnil, if_neg hq, h.other q hq]

/-- The file can always be removed, and then nothing is left of it. -/
theorem remove : ∃ d', d.remove directory temporary = .ok d' ∧ ∀ q, d'.get? q = d₀.get? q := by
  obtain ⟨content, written, hfile⟩ := h.file
  have hlocate := locate_mono h.keepsDirectories h.locate
  have hnil : place directory temporary ≠ [] := ne_nil_of_get? (by rw [hfile]; simp)
  refine ⟨d.erase (place directory temporary), ?_, fun q => ?_⟩
  · rw [Disk.remove, hlocate]
    simp only [bind, Except.bind, hfile]
    rfl
  · rw [get?_erase hnil]
    split
    · rename_i hq
      rw [hq, h.fresh]
    · rename_i hq
      exact h.other q hq

/-- If the file takes the place of another one, only that one has changed. -/
theorem rename (hrename : d.rename directory temporary path = .ok d')
    (hne : place directory temporary ≠ place directory path) :
    ∀ q, q ≠ place directory path → d'.get? q = d₀.get? q := by
  intro q hq
  obtain ⟨-, content, written, hsource, hdirectory, rfl⟩ := rename_eq_ok hrename
  have hnil : place directory temporary ≠ [] := ne_nil_of_get? (by rw [hsource]; simp)
  rw [if_neg hne, get?_put (ne_nil_of_get? hdirectory), if_neg hq, get?_erase hnil]
  split
  · rename_i htemporary
    rw [htemporary, h.fresh]
  · rename_i hother
    exact h.other q hother

end Holding

/-- Giving up takes the temporary file away. -/
theorem ends_discard {e : Fault} {Q : Unit → World → Prop} {E : Fault → World → Prop}
    (h : Holding temporary s.directory d₀ w.disk)
    (hE : ∀ w' : World, (∀ q, w'.disk.get? q = d₀.get? q) → E e w') :
    Ends (do
      let _ ← (attempt (removeFile temporary) : Action Fault (Except Fault Unit))
      throw e : Action Fault Unit) s w Q E := by
  obtain ⟨d', hremove, hgone⟩ := h.remove
  refine .bind (.attempt (.step (fun d₁ hd₁ => .throw (hE _ ?_)) fun e he => ?_))
  · obtain rfl := Except.ok.inj (hremove.symm.trans hd₁)
    exact hgone
  · cases hremove.symm.trans he

/-- When the temporary file is there, it is gone in the end. Either nothing has changed, or the file
that was to be replaced has the content that was produced, and no other has changed. -/
theorem ends_finishWith {produce : Action Fault Draft}
    (hproduce : Moves .still s produce fun _ => True)
    (hne : place s.directory temporary ≠ place s.directory path)
    (h : Holding temporary s.directory d₀ w.disk) :
    Ends (finishWith temporary path produce) s w
      (fun _ w' => ∃ draft w₁, produce.perform s w = (.ok draft, w₁) ∧ draft.fault = none
        ∧ w'.disk.read s.directory path = .ok draft.content
        ∧ ∀ q, q ≠ place s.directory path → w'.disk.get? q = d₀.get? q)
      fun _ w' => ∀ q, w'.disk.get? q = d₀.get? q := by
  have hstill {result : Except Fault Draft} {w₁ : World}
      (hrun : produce.perform s w = (result, w₁)) :
      Holding temporary s.directory d₀ w₁.disk := by
    have hmoved : (produce.perform s w).2.disk = w.disk := hproduce.allows_perform w
    rw [hrun] at hmoved
    exact hmoved ▸ h
  refine .bind (.attempt (.bind (.of_perform (fun draft w₁ hdraft => ?_) fun e w₁ hfailed => ?_)))
  · refine .bind (.writeFile (fun now d hwrite => ?_) fun now e _ => ?_)
    · have hwritten := (hstill hdraft).write hwrite
      cases hfault : draft.fault with
      | some e => exact .throw (ends_discard hwritten fun _ => id)
      | none =>
        refine .pure (.bind (.attempt (.step (fun d₁ hrename => .pure ?_) fun e _ => ?_)))
        · refine ⟨draft, w₁, hdraft, hfault, ?_, hwritten.rename hrename hne⟩
          obtain ⟨content, hcontent, hrenamed⟩ := content?_rename hrename hne
          obtain rfl : draft.content = content := by
            rw [content?_write hwrite, if_pos rfl] at hcontent
            exact Option.some.inj hcontent
          refine read_eq_ok_iff.2 ⟨?_, by rw [hrenamed, if_pos rfl]⟩
          exact locate_mono (keepsDirectories_rename hrename) (rename_eq_ok hrename).1
        · exact ends_discard hwritten fun _ => id
    · exact ends_discard (hstill hdraft) fun _ => id
  · exact ends_discard (hstill hfailed) fun _ => id

/-! ## Replacing -/

/-- What is done before the content is produced. -/
def openTemporary (folder name : String) : Action Fault String := do
  makeDirectories folder
  createNextTo folder name (← nameBound)

theorem ends_openTemporary {ways : List Place} (hname : Path.IsName name)
    (hmark : '/' ∉ s.mark.toList) (hways : ∀ q ∈ way s.directory folder, q ∈ ways) :
    Ends (openTemporary folder name) s w
      (fun temporary w₁ => ∃ d₀, (Change.within [] ways).allows w.disk d₀
        ∧ Holding temporary s.directory d₀ w₁.disk
        ∧ ∃ number, place s.directory temporary
          = place s.directory folder ++ [temporaryName name s.mark number])
      fun _ w₁ => (Change.within [] ways).allows w.disk w₁.disk := by
  refine .bind (((within_makeDirectories hways).ends w).mono ?_ fun _ _ h => h)
  rintro - w₁ ⟨hmade, -⟩
  refine .bind (.look ((ends_createNextTo hname hmark _ w₁).mono ?_ ?_))
  · exact fun temporary w₂ h => ⟨w₁.disk, hmade, h⟩
  · rintro e w₂ hsame
    rwa [hsame]

theorem replaceWith_eq_bind (produce : Action Fault Draft)
    (hname : Path.fileName? path = some name) :
    ∃ folder, Path.isAbsolute folder = Path.isAbsolute path
      ∧ Path.steps path = Path.steps folder ++ [name.toList]
      ∧ replaceWith path produce = openTemporary folder name >>= fun temporary =>
        finishWith temporary path produce := by
  obtain ⟨folder, habsolute, hsteps, heq⟩ := replaceWith_eq produce hname
  refine ⟨folder, habsolute, hsteps, ?_⟩
  rw [heq, openTemporary]
  simp only [bind_assoc]

/-- Replacing a file makes the directories on the way to it, and touches nothing else. -/
theorem within_replaceWith {produce : Action Fault Draft} (hname : Path.IsName name)
    (hmark : '/' ∉ s.mark.toList) (hproduce : Moves .still s produce fun _ => True)
    (hfile : place s.directory (Path.join folder name) ∈ files)
    (hways : ∀ q ∈ way s.directory folder, q ∈ ways) :
    Moves (.within files ways) s (replaceWith (Path.join folder name) produce)
      fun _ => True := by
  obtain ⟨parent, habsolute, hsteps, heq⟩ :=
    replaceWith_eq_bind produce (hname.fileName?_join folder)
  have hplace := place_of_fileName? s.directory habsolute hsteps hname
  have hsame := upwards_of_steps hname habsolute hsteps
  have hwider {d d' : Disk} (h : (Change.within [] ways).allows d d') :
      (Change.within files ways).allows d d' := fun q _ => h q List.not_mem_nil
  rw [heq]
  refine ⟨fun w => .bind ((ends_openTemporary hname hmark
    fun q hq => hways q (hsame.way_subset hq)).mono ?_ fun _ _ h => hwider h)⟩
  rintro temporary w₁ ⟨d₀, hmade, hholding, number, hnumber⟩
  refine (ends_finishWith hproduce (place_temporary_ne hnumber hplace) hholding).mono ?_ ?_
  · rintro - w₂ ⟨-, -, -, -, -, hother⟩
    exact ⟨(Change.within _ _).trans (hwider hmade) (within_of_other hfile hother), trivial⟩
  · exact fun _ _ hsame =>
      (Change.within _ _).trans (hwider hmade) (within_of_other hfile fun q _ => hsame q)

end Jarwright.Machine
