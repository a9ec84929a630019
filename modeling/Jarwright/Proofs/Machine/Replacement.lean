import Jarwright.Machine.Replacement
import Jarwright.Proofs.Machine.Action

/-!
# What replacing a file leaves in between

Until a file is replaced the disk has all the files that it had, and at most one more, which has the
name of a temporary file (`Beside`); then the file has its new content, and no other file has been
changed (`Replaced`). What is left when replacing fails is one of the former disks.

* `passes_createNextTo`, `passes_finishWith`: the two halves of replacing;
* `passes_replaceWith`: replacing a file.
-/

namespace Jarwright.Machine

open Disk Machine.Action

variable {s : Surroundings} {d d' d₁ : Disk} {I : Disk → Prop} {folder name path : String}

/-! ## Temporary files -/

theorem isName_temporaryName (hname : Path.IsName name) {mark : String} (hmark : '/' ∉ mark.toList)
    (number : Nat) : Path.IsName (temporaryName name mark number) := by
  have hdigits : '/' ∉ Text.decimal number := by
    intro hmem
    have hdigit := Nat.isDigit_of_mem_toDigits (by omega) (by omega) hmem
    exact absurd hdigit (by decide)
  have hdot : 'm' ∈ (temporaryName name mark number).toList := by
    simp [temporaryName]
  refine ⟨?_, ?_, ?_⟩
  · simp [temporaryName, hname.slash, hmark, hdigits]
  · rw [Path.isStep, Bool.and_eq_true, bne_iff_ne, bne_iff_ne]
    constructor <;> intro h <;> simp [h] at hdot
  · intro h
    rw [h] at hdot
    simp at hdot

theorem temporaryName_ne (name mark : String) (number : Nat) :
    temporaryName name mark number ≠ name := by
  intro h
  have hlength := congrArg String.length h
  have hdot : ".".length = 1 := rfl
  simp only [temporaryName, String.length_append, hdot] at hlength
  omega

/-- A temporary file is not where the file is that it is next to. -/
theorem place_temporary_ne {directory p : Place} {temporary mark : String} {number : Nat}
    (htemporary : place directory temporary = p ++ [temporaryName name mark number])
    (hplace : place directory path = p ++ [name]) :
    place directory temporary ≠ place directory path := by
  rw [htemporary, hplace]
  intro h
  exact temporaryName_ne name mark number (List.singleton_inj.1 (List.append_cancel_left h))

/-- Whether a place is that of a temporary file next to another file. -/
def IsTemporary (s : Surroundings) (p : Place) (name : String) (q : Place) : Prop :=
  ∃ number, q = p.dropLast ++ [temporaryName name s.mark number]

theorem passes_nextSerial {ε : Type} {Q : Nat → Disk → Prop} {E : ε → Disk → Prop}
    (h : ∀ n, Q n d) : Passes (Machine.nextSerial : Action ε Nat) s d I Q E := by
  constructor
  rintro w rfl
  exact ⟨Leads.refl rfl rfl, h _⟩

/-- Of the names that are tried the first free one is taken, in a single step. -/
theorem passes_createNextTo {n : Nat} {Q : String → Disk → Prop} {E : Fault → Disk → Prop}
    (hname : Path.IsName name) (hmark : '/' ∉ s.mark.toList) (hI : I d)
    (hok : ∀ (temporary : String) (number : Nat) (d' : Disk),
      place s.directory temporary
        = place s.directory folder ++ [temporaryName name s.mark number] →
      d.content? (place s.directory temporary) = none →
      (∀ q, q ≠ place s.directory temporary → d'.content? q = d.content? q) → Q temporary d')
    (hE : ∀ e, E e d) : Passes (Machine.createNextTo folder name n) s d I Q E := by
  induction n with
  | zero => exact .throw (hE _)
  | succ n ih =>
    refine .bind (passes_nextSerial fun number => .bind (.read ?_))
    refine .bind (.attempt (.createFile (fun time d' hd' => ⟨hI, ?_⟩) fun e => ?_))
    · obtain ⟨hfresh, hother, -⟩ := content?_create hd'
      refine .pure (hok _ number _ (place_join ?_) hfresh hother)
      exact isName_temporaryName hname hmark number
    · cases e with
      | alreadyExists => exact ih
      | _ => exact .throw (hE _)

/-! ## What is left alone -/

/-- Whether a disk still has all files of another one, and no others except in places of `new`. -/
structure Beside (new : Place → Prop) (d d' : Disk) : Prop where
  files : ∀ q content, d.content? q = some content → d'.content? q = some content
  other : ∀ q, ¬ new q → d'.content? q = d.content? q

/-- Whether a disk has a content at a place, but is otherwise beside another one. -/
structure Replaced (new : Place → Prop) (p : Place) (content : Bytes) (d d' : Disk) : Prop where
  content : d'.content? p = some content
  files : ∀ q content, q ≠ p → d.content? q = some content → d'.content? q = some content
  other : ∀ q, q ≠ p → ¬ new q → d'.content? q = d.content? q

namespace Beside

variable {new : Place → Prop}

theorem of_sameFiles (h : d.SameFiles d') : Beside new d d' :=
  ⟨fun q _ hq => (h q).trans hq, fun q _ => h q⟩

/-- A disk is beside another one if only one place differs, at which nothing was. -/
theorem of_fresh {t : Place} (hfresh : d.content? t = none) (hnew : new t)
    (h : ∀ q, q ≠ t → d'.content? q = d.content? q) : Beside new d d' where
  files q content hq := by
    have hne : q ≠ t := by
      rintro rfl
      rw [hfresh] at hq
      cases hq
    exact (h q hne).trans hq
  other q hq := h q fun heq => hq (heq ▸ hnew)

end Beside

/-- The file is replaced, and besides it only one place differs, at which nothing was. -/
theorem Replaced.of_fresh {new : Place → Prop} {p t : Place} {content : Bytes}
    (hfresh : d.content? t = none) (hnew : new t) (hcontent : d'.content? p = some content)
    (h : ∀ q, q ≠ p → q ≠ t → d'.content? q = d.content? q) : Replaced new p content d d' where
  content := hcontent
  files q content hq hthere := by
    have hne : q ≠ t := by
      rintro rfl
      rw [hfresh] at hthere
      cases hthere
    exact (h q hq hne).trans hthere
  other q hq htemp := h q hq fun heq => htemp (heq ▸ hnew)

/-! ## Replacing -/

theorem place_of_fileName? {parent : String} (directory : Place)
    (hparent : Path.isAbsolute parent = Path.isAbsolute path)
    (hsteps : Path.steps path = Path.steps parent ++ [name.toList])
    (hname : Path.IsName name) : place directory path = place directory parent ++ [name] := by
  rw [← place_join hname, place, place, hname.isAbsolute_join,
    Path.steps_join parent hname.isAbsolute, hname.steps, hparent, hsteps]

/-- Giving up takes the temporary file away, or leaves it. -/
theorem passes_discard {α : Type} {temporary : String} {e : Fault} {Q : α → Disk → Prop}
    {E : Fault → Disk → Prop} (hI : I d) (hE : E e d)
    (hremoved : ∀ d', d.remove s.directory temporary = .ok d' → E e d') :
    Passes (do
      let _ ← (attempt (removeFile temporary) : Action Fault (Except Fault Unit))
      throw e) s d I Q E :=
  .bind (.attempt (.step (fun d' hd' => ⟨hI, .throw (hremoved d' hd')⟩) fun _ _ => .throw hE))

/-- What is done when the temporary file is there. -/
def finishWith (temporary path : String) (produce : Action Fault Draft) : Action Fault Unit := do
  let written ← attempt do
    let draft ← produce
    writeFile temporary draft.content
    match draft.fault with
    | some e => throw e
    | none => pure ()
  match written with
  | .error e =>
    let _ ← attempt (removeFile temporary)
    throw e
  | .ok () =>
    match ← attempt (renameFile temporary path) with
    | .ok () => return
    | .error e =>
      let _ ← attempt (removeFile temporary)
      throw e

/-- A file that has a name is replaced from its folder, which a dot names if the parent of the path
says nothing. -/
theorem replaceWith_eq (produce : Action Fault Draft) (hname : Path.fileName? path = some name) :
    ∃ folder, Path.isAbsolute folder = Path.isAbsolute path
      ∧ Path.steps path = Path.steps folder ++ [name.toList]
      ∧ replaceWith path produce = (do
        makeDirectories folder
        let temporary ← createNextTo folder name (← nameBound)
        finishWith temporary path produce) := by
  obtain ⟨parent, hparent, habsolute, hsteps⟩ := Path.parent?_of_fileName? hname
  unfold replaceWith
  rw [hname, hparent]
  by_cases hempty : parent = ""
  · subst hempty
    exact ⟨".", habsolute, hsteps, rfl⟩
  · refine ⟨parent, habsolute, hsteps, ?_⟩
    dsimp only
    split
    · rename_i heq
      cases heq
    · rename_i heq
      exact absurd (Option.some.inj heq) hempty
    · rename_i heq
      obtain rfl := Option.some.inj heq
      rfl

/-- When the temporary file is there, only its place changes until the file is replaced. -/
theorem passes_finishWith {temporary : String} {produce : Action Fault Draft} {P : Draft → Prop}
    {Q : Unit → Disk → Prop} {E : Fault → Disk → Prop}
    (hne : place s.directory temporary ≠ place s.directory path)
    (hproduce : Passes produce s d (fun _ => False) (fun draft e => e = d ∧ P draft)
      fun _ e => e = d)
    (hI : ∀ d', (∀ q, q ≠ place s.directory temporary → d'.content? q = d.content? q) → I d')
    (hE : ∀ e d', (∀ q, q ≠ place s.directory temporary → d'.content? q = d.content? q) → E e d')
    (hQ : ∀ (draft : Draft) (d₁ d' : Disk), P draft → draft.fault = none →
      d₁.locate s.directory path = .ok (place s.directory path) →
      (∀ q, d'.content? q = if q = place s.directory path then some draft.content
        else if q = place s.directory temporary then none else d.content? q) → Q () d') :
    Passes (finishWith temporary path produce) s d I Q E := by
  have hfail (e : Fault) (d₁ : Disk)
      (h : ∀ q, q ≠ place s.directory temporary → d₁.content? q = d.content? q) :
      Passes (do
        let _ ← (attempt (removeFile temporary) : Action Fault (Except Fault Unit))
        throw e : Action Fault Unit) s d₁ I Q E := by
    refine passes_discard (hI d₁ h) (hE e d₁ h) fun d₂ hd₂ => hE e d₂ fun q hq => ?_
    rw [content?_remove hd₂, if_neg hq, h q hq]
  refine .bind (.attempt (.bind (hproduce.mono (fun _ h => h.elim) ?_ ?_)))
  · rintro draft d₁ ⟨rfl, hP⟩
    refine .bind (.writeFile (fun time d₂ hd₂ => ⟨hI d₁ fun _ _ => rfl, ?_⟩) fun e => ?_)
    · have hwritten := content?_write hd₂
      have hothers (q : Place) (hq : q ≠ place s.directory temporary) :
          d₂.content? q = d₁.content? q := by
        rw [hwritten, if_neg hq]
      cases hfault : draft.fault with
      | some e => exact .throw (hfail e _ hothers)
      | none =>
        refine .pure (.bind (.attempt (.step (fun d₃ hd₃ => ⟨hI _ hothers, ?_⟩) fun e _ => ?_)))
        · obtain ⟨hlocate, -⟩ := rename_eq_ok hd₃
          obtain ⟨content, hcontent, hrenamed⟩ := content?_rename hd₃ hne
          obtain rfl : draft.content = content := by
            rw [hwritten, if_pos rfl] at hcontent
            exact Option.some.inj hcontent
          refine .pure (hQ draft _ _ hP hfault hlocate fun q => ?_)
          rw [hrenamed]
          by_cases hq : q = place s.directory temporary
          · rw [if_pos hq, if_pos hq]
          · rw [if_neg hq, if_neg hq, hothers q hq]
        · exact hfail e _ hothers
    · exact hfail e d₁ fun _ _ => rfl
  · rintro e d₁ rfl
    exact hfail e d₁ fun _ _ => rfl

/-- Until a file is replaced, or if it is not, at most a temporary file is left next to it. -/
theorem passes_replaceWith {produce : Action Fault Draft} {P : Draft → Prop}
    {Q : Unit → Disk → Prop} {E : Fault → Disk → Prop}
    (hname : Path.fileName? path = some name) (hmark : '/' ∉ s.mark.toList)
    (hproduce : ∀ d', Beside (IsTemporary s (place s.directory path) name) d d' →
      Passes produce s d' (fun _ => False) (fun draft e => e = d' ∧ P draft) fun _ e => e = d')
    (hI : ∀ d', Beside (IsTemporary s (place s.directory path) name) d d' → I d')
    (hE : ∀ e d', Beside (IsTemporary s (place s.directory path) name) d d' → E e d')
    (hQ : ∀ (draft : Draft) (d₁ d' : Disk), P draft → draft.fault = none →
      d₁.locate s.directory path = .ok (place s.directory path) →
      Replaced (IsTemporary s (place s.directory path) name) (place s.directory path)
        draft.content d d' → Q () d') :
    Passes (replaceWith path produce) s d I Q E := by
  have hisname : Path.IsName name := Path.isName_of_fileName? hname
  obtain ⟨folder, habsolute, hsteps, hreplace⟩ := replaceWith_eq produce hname
  have hplace := place_of_fileName? s.directory habsolute hsteps hisname
  rw [hreplace]
  refine .bind (.makeDirectories (fun d₁ h => hI d₁ (.of_sameFiles h)) (fun d₁ hmade => ?_)
    fun e d₁ h => hE e d₁ (.of_sameFiles h))
  refine .bind (.look (.bind (passes_createNextTo hisname hmark (hI d₁ (.of_sameFiles hmade))
    (fun temporary number d₂ htemporary hfresh hcreated => ?_)
    fun e => hE e d₁ (.of_sameFiles hmade))))
  have hnew : IsTemporary s (place s.directory path) name (place s.directory temporary) :=
    ⟨number, by rw [htemporary, hplace, List.dropLast_concat]⟩
  have hne := place_temporary_ne htemporary hplace
  have hfiles (q : Place) (hq : q ≠ place s.directory temporary) : d₂.content? q = d.content? q :=
    (hcreated q hq).trans (hmade q)
  have hfresh : d.content? (place s.directory temporary) = none := (hmade _).symm.trans hfresh
  have hbeside (d' : Disk)
      (h : ∀ q, q ≠ place s.directory temporary → d'.content? q = d₂.content? q) :
      Beside (IsTemporary s (place s.directory path) name) d d' :=
    .of_fresh hfresh hnew fun q hq => (h q hq).trans (hfiles q hq)
  refine passes_finishWith hne (hproduce d₂ (hbeside d₂ fun _ _ => rfl))
    (fun d' h => hI d' (hbeside d' h)) (fun e d' h => hE e d' (hbeside d' h))
    fun draft d₃ d' hP hfault hlocate hcontents => ?_
  refine hQ draft d₃ d' hP hfault hlocate (.of_fresh hfresh hnew ?_ fun q hq hother => ?_)
  · rw [hcontents, if_pos rfl]
  · rw [hcontents, if_neg hq, if_neg hother, hfiles q hother]

end Jarwright.Machine
