import Jarwright.Archive.Extraction
import Jarwright.Proofs.Machine.Growth

/-!
# Names that stay below

A name is enclosed if it does not begin at the root, has no zero in it and never leads further up
than it has led down (`enclosedPath?_eq_ite`). Seen from a root, such a name leads to places
below the root, and on the way there to nothing but these and the places on the way to the root
(`Encloses.mem_way`). What is found there stands in a directory at the root
(`directory_of_locate_join`).
-/

namespace Jarwright.Archive

open Machine Machine.Disk

variable {names : List String} {depth : Nat} {name root : String}
  {directory q : Place} {d : Disk}

/-! ## Depths -/

/-- How many of the names lead down. -/
def downs (names : List String) : Nat := names.countP fun name => name != ".." && name != "."

/-- How many of the names lead up. -/
def ups (names : List String) : Nat := names.count ".."

theorem forall_prefix_cons {α : Type} {P : List α → Prop} (a : α) (l : List α) :
    (∀ front, front <+: a :: l → P front) ↔ P [] ∧ ∀ front, front <+: l → P (a :: front) := by
  constructor
  · intro h
    exact ⟨h [] List.nil_prefix, fun front hfront => h _ (List.cons_prefix_cons.2 ⟨rfl, hfront⟩)⟩
  · rintro ⟨hnil, hcons⟩ front hfront
    rcases List.prefix_cons_iff.1 hfront with rfl | ⟨rest, rfl, hrest⟩
    · exact hnil
    · exact hcons rest hrest

theorem staysBelow_up_zero : staysBelow 0 (".." :: names) = false := rfl

theorem staysBelow_up_succ : staysBelow (depth + 1) (".." :: names) = staysBelow depth names := rfl

theorem staysBelow_dot : staysBelow depth ("." :: names) = staysBelow depth names := by
  cases depth <;> rfl

theorem staysBelow_down (hup : name ≠ "..") (hdot : name ≠ ".") :
    staysBelow depth (name :: names) = staysBelow (depth + 1) names := by
  cases depth <;> simp [staysBelow, hup, hdot]

/-- Names stay below if none of their beginnings leads further up than down. -/
theorem staysBelow_iff :
    staysBelow depth names = true ↔ ∀ front, front <+: names → ups front ≤ depth + downs front := by
  induction names generalizing depth with
  | nil =>
    refine iff_of_true rfl fun front hfront => ?_
    rw [List.prefix_nil.1 hfront]
    exact Nat.zero_le _
  | cons name names ih =>
    -- the first name moves the depth for all beginnings of the rest
    have hnil : ups [] ≤ depth + downs [] := Nat.zero_le _
    rw [forall_prefix_cons, and_iff_right hnil]
    by_cases hup : name = ".."
    · subst hup
      cases depth with
      | zero =>
        have hfirst : ¬ ups [".."] ≤ 0 + downs [".."] := by decide
        exact iff_of_false (by simp [staysBelow_up_zero]) fun h => hfirst (h [] List.nil_prefix)
      | succ depth =>
        rw [staysBelow_up_succ, ih]
        refine forall₂_congr fun front _ => ?_
        have hdowns : downs (".." :: front) = downs front := rfl
        have hups : ups (".." :: front) = ups front + 1 := List.count_cons_self
        omega
    · have hups (front : List String) : ups (name :: front) = ups front :=
        List.count_cons_of_ne hup
      by_cases hdot : name = "."
      · subst hdot
        rw [staysBelow_dot, ih]
        refine forall₂_congr fun front _ => ?_
        have hdowns : downs ("." :: front) = downs front := rfl
        rw [hups, hdowns]
      · rw [staysBelow_down hup hdot, ih]
        refine forall₂_congr fun front _ => ?_
        have hdowns : downs (name :: front) = downs front + 1 :=
          List.countP_cons_of_pos (by simp [hup, hdot])
        rw [hups, hdowns]
        omega

/-- Whether a name can be extracted: it is relative, has no zero in it, and none of its beginnings
leads further up than down. -/
structure Encloses (name : String) : Prop where
  zero : '\x00' ∉ name.toList
  relative : Path.isAbsolute name = false
  below : ∀ front, front <+: Path.components name → ups front ≤ downs front

theorem encloses_iff : Encloses name ↔ '\x00' ∉ name.toList ∧ Path.isAbsolute name = false
    ∧ staysBelow 0 (Path.components name) = true := by
  have hbelow : staysBelow 0 (Path.components name) = true
      ↔ ∀ front, front <+: Path.components name → ups front ≤ downs front := by
    rw [staysBelow_iff]
    simp only [Nat.zero_add]
  rw [hbelow]
  exact ⟨fun h => ⟨h.zero, h.relative, h.below⟩, fun ⟨hzero, hrelative, h⟩ => ⟨hzero, hrelative, h⟩⟩

/-- A name is refused if it is not enclosed, and otherwise its own path. -/
theorem enclosedPath?_eq_ite [Decidable (Encloses name)] :
    enclosedPath? name = if Encloses name then some name else none := by
  rw [enclosedPath?]
  by_cases hfirst : '\x00' ∈ name.toList ∨ Path.isAbsolute name = true
  · have hnot : ¬ Encloses name := by
      rintro ⟨hzero, hrelative, -⟩
      rcases hfirst with hmem | habsolute
      · exact hzero hmem
      · simp [hrelative] at habsolute
    rw [if_neg hnot, if_pos (by simpa using hfirst)]
  · rw [not_or] at hfirst
    rw [if_neg (by simpa using hfirst)]
    refine if_congr ?_ rfl rfl
    rw [encloses_iff]
    simp [hfirst.1, hfirst.2]

theorem enclosedPath?_of_encloses (h : Encloses name) : enclosedPath? name = some name := by
  classical
  rw [enclosedPath?_eq_ite, if_pos h]

theorem enclosedPath?_of_not_encloses (h : ¬ Encloses name) : enclosedPath? name = none := by
  classical
  rw [enclosedPath?_eq_ite, if_neg h]

/-! ## Places -/

/-- A dot at the start says nothing about the depth. -/
theorem staysBelow_components (name : String) :
    staysBelow 0 (Path.components name)
      = staysBelow 0 ((Path.steps name).map String.ofList) := by
  rw [Path.components_eq, List.map_append, Path.leadingDot]
  split
  · exact staysBelow_dot
  · rfl

/-- Names that stay below lead to what is below the place where they are seen from. -/
theorem prefix_foldl_descend {segments : List (List Char)} (p down : Place)
    (hsteps : ∀ name ∈ segments, Path.isStep name = true)
    (h : staysBelow down.length (segments.map String.ofList) = true) :
    p <+: segments.foldl descend (p ++ down) := by
  induction segments generalizing down with
  | nil => exact List.prefix_append p down
  | cons name segments ih =>
    obtain ⟨hname, hrest⟩ := List.forall_mem_cons.1 hsteps
    rw [List.map_cons] at h
    rw [List.foldl_cons, descend]
    by_cases hup : name = ['.', '.']
    · subst hup
      rw [if_pos rfl]
      rcases List.eq_nil_or_concat down with rfl | ⟨down, last, rfl⟩
      · exact absurd h (by simp [staysBelow_up_zero])
      · rw [List.concat_eq_append, ← List.append_assoc, List.dropLast_concat]
        refine ih down hrest ?_
        rwa [List.concat_eq_append, List.length_append, List.length_singleton] at h
    · have hdown : String.ofList name ≠ ".." := fun heq =>
        hup (String.ofList_injective (heq.trans (String.ofList_toList (s := "..")).symm))
      have hdot : String.ofList name ≠ "." := by
        intro heq
        have hchars : name = ['.'] :=
          String.ofList_injective (heq.trans (String.ofList_toList (s := ".")).symm)
        rw [hchars] at hname
        exact absurd hname (by decide)
      rw [if_neg hup, List.append_assoc]
      refine ih _ hrest ?_
      rw [List.length_append, List.length_singleton]
      rwa [staysBelow_down hdown hdot] at h

theorem Encloses.prefix_foldl {front : List (List Char)} (h : Encloses name) (p : Place)
    (hfront : front <+: Path.steps name) : p <+: front.foldl descend p := by
  have hbelow := (encloses_iff.1 h).2.2
  rw [staysBelow_components, staysBelow_iff] at hbelow
  have hpart := prefix_foldl_descend p []
    (fun name hname => (List.mem_filter.1 (hfront.subset hname)).2)
    (staysBelow_iff.2 fun first hfirst => hbelow first (hfirst.trans (hfront.map _)))
  rwa [List.append_nil] at hpart

/-- The way to an enclosed name leads to the root, and on to what is below it. -/
theorem Encloses.mem_way (h : Encloses name) (hq : q ∈ way directory (Path.join root name)) :
    q ∈ way directory root ∨ place directory root <+: q :=
  mem_way_join_of h.relative (fun _ hfront => h.prefix_foldl _ hfront) hq

theorem Encloses.prefix_place (h : Encloses name) (directory : Place) (root : String) :
    place directory root <+: place directory (Path.join root name) := by
  rw [place, place, Path.isAbsolute_join, h.relative, Bool.or_false,
    Path.steps_join root h.relative, List.foldl_append]
  exact h.prefix_foldl _ (List.prefix_refl _)

/-- The segments of a root stand in front of those of what is below it. -/
theorem segments_join (root : String) :
    ∃ ss, ss.filter Path.isStep = Path.steps root ∧ ∀ path, Path.isAbsolute path = false →
      Path.segments (Path.join root path) = ss ++ Path.segments path := by
  obtain ⟨rfl, hfolder⟩ | ⟨-, front, hfolder, hroot⟩ := Path.asFolder_cases root
  · refine ⟨[], rfl, fun path hpath => ?_⟩
    rw [Path.join_of_relative _ hpath, hfolder, String.empty_append, List.nil_append]
  · refine ⟨Path.segments front, ?_, fun path hpath => ?_⟩
    · rcases hroot with rfl | rfl
      · rfl
      · have hslash := Path.segments_append_slash front ""
        rw [String.append_empty] at hslash
        rw [Path.steps, hslash, List.filter_append]
        exact (List.append_nil _).symm
    · rw [Path.join_of_relative _ hpath, hfolder, Path.segments_append_slash]

/-- Where something can be found below a root there is a directory at the root. -/
theorem directory_of_locate_join (hrelative : Path.isAbsolute name = false)
    (h : d.locate directory (Path.join root name) = .ok q) :
    d.get? (place directory root) = some .directory := by
  obtain ⟨ss, hss, hsegments⟩ := segments_join root
  rw [locate] at h
  split at h
  · cases h
  · rw [Path.isAbsolute_join, hrelative, Bool.or_false, hsegments name hrelative, follow_append]
      at h
    obtain ⟨p, hroot, hrest⟩ : ∃ p, d.follow (if Path.isAbsolute root then [] else directory) ss
        = .ok p ∧ d.follow p (Path.segments name) = .ok q := by
      cases hfollow : d.follow (if Path.isAbsolute root then [] else directory) ss with
      | error e => simp [hfollow, Except.bind] at h
      | ok p => exact ⟨p, rfl, by simpa [hfollow, Except.bind] using h⟩
    have hp : p = place directory root := by rw [follow_eq hroot, hss, place]
    rw [← hp]
    -- at least one segment is looked up there
    by_contra hget
    rw [follow_ne_nil hget Path.segments_ne_nil] at hrest
    split at hrest
    · cases hrest
    · cases hrest

end Jarwright.Archive
