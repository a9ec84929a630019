import Jarwright.Proofs.Machine.Change

/-!
# Ways

What is read at the end of a path depends only on the places that are looked at on the way there.
Steps elsewhere do not disturb it.

* `Disk.way`: the places on the way; `Disk.read_congr`: nothing else matters;
* `Disk.mem_way_join`: the way to what is below a root;
* `Change.sparing`: the way of changing disks that leaves some places as they are;
* `Moves.spareWrite` and its like: steps that do so.
-/

namespace Jarwright.Machine

namespace Disk

variable {d d' : Disk} {directory p q : Place} {path root : String} {ps : List Place}

/-- The places that are looked at when names are followed, and the one that they lead to. -/
def wayFrom (p : Place) : List (List Char) → List Place
  | [] => [p]
  | name :: rest => p :: wayFrom (if Path.isStep name then descend p name else p) rest

/-- The places that are looked at when a path is followed. -/
def way (directory : Place) (path : String) : List Place :=
  wayFrom (if Path.isAbsolute path then [] else directory) (Path.segments path)

theorem follow_congr {names : List (List Char)}
    (h : ∀ q ∈ wayFrom p names, d'.get? q = d.get? q) :
    d'.follow p names = d.follow p names
      ∧ ∀ q, d.follow p names = .ok q → d'.get? q = d.get? q := by
  induction names generalizing p with
  | nil =>
    refine ⟨rfl, fun q hq => ?_⟩
    obtain rfl := Except.ok.inj hq
    exact h _ (List.mem_singleton_self _)
  | cons name names ih =>
    rw [wayFrom, List.forall_mem_cons] at h
    obtain ⟨hp, hrest⟩ := h
    rw [follow, follow, hp]
    split
    · exact ⟨rfl, fun q hq => absurd hq (by simp)⟩
    · exact ⟨rfl, fun q hq => absurd hq (by simp)⟩
    · split
      · rename_i hskip
        have hstep : Path.isStep name = false := by
          rcases hskip with rfl | rfl <;> rfl
        rw [hstep] at hrest
        exact ih hrest
      · rename_i hskip
        have hstep : Path.isStep name = true := by
          simpa [Path.isStep] using hskip
        rw [if_pos hstep, descend] at hrest
        split
        · rename_i hup
          rw [if_pos hup] at hrest
          exact ih hrest
        · rename_i hup
          rw [if_neg hup] at hrest
          split
          · exact ⟨rfl, fun q hq => absurd hq (by simp)⟩
          · exact ih hrest

/-- What is read depends only on the places on the way. -/
theorem read_congr (h : ∀ q ∈ way directory path, d'.get? q = d.get? q) :
    d'.read directory path = d.read directory path := by
  have hnode : d'.node directory path = d.node directory path := by
    unfold node locate
    by_cases hempty : path.isEmpty = true
    · simp only [if_pos hempty]
      rfl
    · simp only [if_neg hempty]
      obtain ⟨hfollow, hlast⟩ := follow_congr h
      rw [hfollow]
      cases hplace : d.follow (if Path.isAbsolute path then [] else directory)
          (Path.segments path) with
      | error e => rfl
      | ok q =>
        simp only [bind, Except.bind]
        rw [hlast q hplace]
  unfold read
  rw [hnode]

/-- The places on the way are where the first of the steps lead. -/
theorem mem_wayFrom_iff {names : List (List Char)} :
    q ∈ wayFrom p names
      ↔ ∃ front, front <+: names.filter Path.isStep ∧ front.foldl descend p = q := by
  induction names generalizing p with
  | nil =>
    rw [wayFrom, List.mem_singleton, List.filter_nil]
    simp [List.prefix_nil, eq_comm]
  | cons name names ih =>
    rw [wayFrom, List.mem_cons, ih]
    cases hstep : Path.isStep name with
    | true =>
      rw [List.filter_cons_of_pos hstep, if_pos rfl]
      constructor
      · rintro (rfl | ⟨front, hfront, rfl⟩)
        · exact ⟨[], List.nil_prefix, rfl⟩
        · exact ⟨name :: front, List.cons_prefix_cons.2 ⟨rfl, hfront⟩, rfl⟩
      · rintro ⟨front, hfront, rfl⟩
        cases front with
        | nil => exact .inl rfl
        | cons first front =>
          obtain ⟨rfl, hrest⟩ := List.cons_prefix_cons.1 hfront
          exact .inr ⟨front, hrest, rfl⟩
    | false =>
      rw [List.filter_cons_of_neg (by simp [hstep]), if_neg (by simp)]
      constructor
      · rintro (rfl | h)
        · exact ⟨[], List.nil_prefix, rfl⟩
        · exact h
      · exact .inr

theorem foldl_descend {names : List (List Char)} (h : ['.', '.'] ∉ names) :
    names.foldl descend p = p ++ names.map String.ofList := by
  induction names generalizing p with
  | nil => simp
  | cons name names ih =>
    rw [List.mem_cons, not_or] at h
    rw [List.foldl_cons, descend, if_neg (Ne.symm h.1), ih h.2]
    simp

/-- Of a path only its start and its steps matter for the way to it. -/
theorem mem_way_iff :
    q ∈ way directory path ↔ ∃ front, front <+: Path.steps path
      ∧ front.foldl descend (if Path.isAbsolute path then [] else directory) = q :=
  mem_wayFrom_iff

theorem place_mem_way (directory : Place) (path : String) :
    place directory path ∈ way directory path :=
  mem_way_iff.2 ⟨Path.steps path, List.prefix_refl _, rfl⟩

/-- The way to what never leaves a root leads to the root, and on below it. -/
theorem mem_way_join_of {rest : String} (hrest : Path.isAbsolute rest = false)
    (hbelow : ∀ front, front <+: Path.steps rest →
      place directory root <+: front.foldl descend (place directory root))
    (h : q ∈ way directory (Path.join root rest)) :
    q ∈ way directory root ∨ place directory root <+: q := by
  rw [mem_way_iff] at h ⊢
  obtain ⟨front, hfront, rfl⟩ := h
  rw [Path.isAbsolute_join, hrest, Bool.or_false]
  rw [Path.steps_join root hrest] at hfront
  rcases List.prefix_or_prefix_of_prefix hfront (List.prefix_append _ _) with hroot | hroot
  · exact .inl ⟨front, hroot, rfl⟩
  · obtain ⟨more, rfl⟩ := hroot
    rw [List.foldl_append]
    exact .inr (hbelow more ((List.prefix_append_right_inj _).1 hfront))

/-- The way to what is below a root leads to the root, and on below it. -/
theorem mem_way_join {rest : String} (hrest : Path.isAbsolute rest = false)
    (hup : ['.', '.'] ∉ Path.steps rest) (h : q ∈ way directory (Path.join root rest)) :
    q ∈ way directory root ∨ place directory root <+: q := by
  refine mem_way_join_of hrest (fun front hfront => ?_) h
  rw [foldl_descend fun hmem => hup (hfront.subset hmem)]
  exact List.prefix_append _ _

end Disk

/-- The change that leaves some places as they are. -/
def Change.sparing (ps : List Place) : Change where
  allows d d' := ∀ q ∈ ps, d'.get? q = d.get? q
  refl _ _ _ := rfl
  trans h h' q hq := (h' q hq).trans (h q hq)

namespace Disk

variable {d d' : Disk} {directory p : Place} {path : String} {ps : List Place}

theorem spare_put {node : Node} (hnil : p ≠ []) (h : p ∉ ps) :
    (Change.sparing ps).allows d (d.put p node) := by
  intro q hq
  have hne : q ≠ p := by
    rintro rfl
    exact h hq
  rw [get?_put hnil, if_neg hne]

theorem spare_erase (hnil : p ≠ []) (h : p ∉ ps) : (Change.sparing ps).allows d (d.erase p) := by
  intro q hq
  have hne : q ≠ p := by
    rintro rfl
    exact h hq
  rw [get?_erase hnil, if_neg hne]

/-- Removing a tree spares the places that are not below it. -/
theorem spare_eraseBelow (h : ∀ q ∈ ps, ¬ p <+: q) :
    (Change.sparing ps).allows d (d.eraseBelow p) := by
  intro q hq
  rw [get?_eraseBelow, if_neg fun hbelow => h q hq hbelow.1]

theorem removeTree_eq_ok (h : d.removeTree directory path = .ok d') :
    d' = d.eraseBelow (place directory path) := by
  obtain ⟨p, hlocate, hstep⟩ := bind_eq_ok.1 h
  obtain rfl := locate_eq hlocate
  split at hstep
  · exact (Except.ok.inj hstep).symm
  · cases hstep
  · cases hstep

end Disk

namespace Moves

open Disk

variable {s : Surroundings} {path : String} {ps : List Place}

theorem spareWrite {content : Bytes} (h : place s.directory path ∉ ps) :
    Moves (.sparing ps) s (Machine.writeFile path content) fun _ => True := by
  refine .writeFile fun now d d' hwrite => ?_
  obtain ⟨-, hdirectory, rfl⟩ := write_eq_ok hwrite
  exact spare_put (ne_nil_of_get? hdirectory) h

theorem spareCreate (h : place s.directory path ∉ ps) :
    Moves (.sparing ps) s (Machine.createFile path) fun _ => True := by
  refine .createFile trivial fun now d d' hcreate => ?_
  obtain ⟨-, hnone, rfl⟩ := create_eq_ok hcreate
  exact spare_put (ne_nil_of_none hnone) h

theorem spareRemove (h : place s.directory path ∉ ps) :
    Moves (.sparing ps) s (Machine.removeFile path) fun _ => True := by
  refine .step trivial fun d d' hremove => ?_
  obtain ⟨⟨content, hcontent⟩, rfl⟩ := remove_eq_ok hremove
  exact spare_erase (ne_nil_of_content? hcontent) h

theorem spareMakeDirectory (h : place s.directory path ∉ ps) :
    Moves (.sparing ps) s (Machine.makeDirectory path) fun _ => True := by
  refine .step trivial fun d d' hmade => ?_
  obtain ⟨hnone, rfl⟩ := makeDirectory_eq_ok hmade
  exact spare_put (ne_nil_of_none hnone) h

theorem spareRemoveTree (h : ∀ q ∈ ps, ¬ place s.directory path <+: q) :
    Moves (.sparing ps) s (Machine.removeTree path) fun _ => True := by
  refine .step trivial fun d d' hremove => ?_
  obtain rfl := removeTree_eq_ok hremove
  exact spare_eraseBelow h

end Moves

end Jarwright.Machine
