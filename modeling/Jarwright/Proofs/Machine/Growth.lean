import Jarwright.Proofs.Machine.Ways
import Mathlib.Data.List.Induction

/-!
# Reading where directories are new

A directory that is made where nothing was does not matter to what is read below it: nothing is there
before, and nothing after. This needs a disk that is a tree, and names that can be followed at all,
for a path that ends too early hides what is wrong with the names behind its end.

* `IsTree`: directories above everything;
* `Open`: a path that leads to a directory, or could be led to one;
* `Open.read_congr`: what is read does not change when directories are made on the way, and nothing
  else is done there.
-/

namespace Jarwright.Machine.Disk

variable {d d' : Disk} {directory p q : Place} {names : List (List Char)}

/-! ## Trees -/

/-- Whether everything on a disk stands in a directory. -/
def IsTree (d : Disk) : Prop :=
  ∀ (p : Place) (name : String), d.get? (p ++ [name]) ≠ none → d.get? p = some .directory

theorem IsTree.get?_eq_none (h : d.IsTree) (hp : d.get? p = none) (hq : p <+: q) :
    d.get? q = none := by
  obtain ⟨names, rfl⟩ := hq
  induction names using List.reverseRecOn with
  | nil => rwa [List.append_nil]
  | append_singleton names name ih =>
    cases hthere : d.get? (p ++ (names ++ [name])) with
    | none => rfl
    | some node =>
      rw [← List.append_assoc] at hthere
      rw [h (p ++ names) name (by rw [hthere]; simp)] at ih
      cases ih

/-- A disk is a tree if each of its nodes stands in a directory. -/
theorem isTree_of_nodes (h : ∀ e ∈ d.nodes, d.get? e.1.dropLast = some .directory) : d.IsTree := by
  intro p name hthere
  unfold get? at hthere
  split at hthere
  · rename_i hempty
    simp at hempty
  · obtain ⟨node, hnode⟩ := Option.ne_none_iff_exists'.1 hthere
    obtain ⟨before, rest, hnodes, -⟩ := List.lookup_eq_some_iff.1 hnode
    have hmem : (p ++ [name], node) ∈ d.nodes := by simp [hnodes]
    simpa using h _ hmem

/-! ## Going down -/

/-- Whether a name leads down, and can be that of a file. -/
def LeadsDown (name : List Char) : Prop :=
  Path.isStep name = true ∧ name ≠ ['.', '.'] ∧ isBadName name = false

theorem up_not_mem_of_leadsDown (h : ∀ name ∈ names, LeadsDown name) : ['.', '.'] ∉ names :=
  fun hmem => (h _ hmem).2.1 rfl

/-- Names that lead down are looked at one behind the other. -/
theorem mem_wayFrom_of_leadsDown (h : ∀ name ∈ names, LeadsDown name) :
    q ∈ wayFrom p names ↔ ∃ front, front <+: names ∧ q = p ++ front.map String.ofList := by
  have hsteps : names.filter Path.isStep = names := List.filter_eq_self.2 fun n hn => (h n hn).1
  rw [mem_wayFrom_iff, hsteps]
  have hdown {front : List (List Char)} (hfront : front <+: names) :
      front.foldl descend p = p ++ front.map String.ofList :=
    foldl_descend fun hmem => up_not_mem_of_leadsDown h (hfront.subset hmem)
  constructor
  · rintro ⟨front, hfront, rfl⟩
    exact ⟨front, hfront, hdown hfront⟩
  · rintro ⟨front, hfront, rfl⟩
    exact ⟨front, hfront, hdown hfront⟩

theorem wayFrom_cons_of_leadsDown {name : List Char} (h : LeadsDown name) :
    wayFrom p (name :: names) = p :: wayFrom (p ++ [String.ofList name]) names := by
  rw [wayFrom, h.1, if_pos rfl, descend, if_neg h.2.1]

theorem follow_cons_of_leadsDown {name : List Char} (h : LeadsDown name) :
    d.follow p (name :: names) = match d.get? p with
      | none => .error .notFound
      | some (.file ..) => .error .notADirectory
      | some .directory => d.follow (p ++ [String.ofList name]) names := by
  obtain ⟨hstep, hup, hbad⟩ := h
  have hskip : ¬ (name = [] ∨ name = ['.']) := by simpa [Path.isStep] using hstep
  rw [follow]
  cases d.get? p with
  | none => rfl
  | some node =>
    cases node with
    | file content written => rfl
    | directory =>
      dsimp only
      rw [if_neg hskip, if_neg hup, hbad, if_neg Bool.false_ne_true]

/-! ## What is at the end of a way -/

/-- What is at a place, where nothing is a fault. -/
def nodeAt (d : Disk) (p : Place) : Except Fault Node :=
  match d.get? p with
  | some node => .ok node
  | none => .error .notFound

theorem nodeAt_congr (h : d'.get? p = d.get? p) : d'.nodeAt p = d.nodeAt p := by
  rw [nodeAt, nodeAt, h]

/-- Whether a place is as it was, apart from a directory where nothing was. -/
def Kept (d d' : Disk) (p : Place) : Prop :=
  d'.get? p = d.get? p ∨ d.get? p = none ∧ d'.get? p = some .directory

/-- Where there are only directories on the way, and nothing at its end, nothing is found. -/
theorem follow_bind_eq_notFound (hnames : ∀ name ∈ names, LeadsDown name)
    (hway : ∀ q ∈ wayFrom p names, d.get? q = none ∨ d.get? q = some .directory)
    (hlast : d.get? (p ++ names.map String.ofList) = none) :
    (d.follow p names).bind d.nodeAt = .error .notFound := by
  induction names generalizing p with
  | nil =>
    rw [List.map_nil, List.append_nil] at hlast
    simp only [follow, Except.bind, nodeAt, hlast]
  | cons name names ih =>
    obtain ⟨hname, hnames⟩ := List.forall_mem_cons.1 hnames
    rw [wayFrom_cons_of_leadsDown hname, List.forall_mem_cons] at hway
    rw [follow_cons_of_leadsDown hname]
    rcases hway.1 with hnone | hdirectory
    · rw [hnone]
      rfl
    · rw [hdirectory]
      exact ih hnames hway.2 (by simpa using hlast)

/-- New directories on the way do not matter, if the end of the way is as it was. -/
theorem follow_bind_congr (htree : d.IsTree) (hnames : ∀ name ∈ names, LeadsDown name)
    (hway : ∀ q ∈ wayFrom p names, Kept d d' q)
    (hlast : d'.get? (p ++ names.map String.ofList) = d.get? (p ++ names.map String.ofList)) :
    (d'.follow p names).bind d'.nodeAt = (d.follow p names).bind d.nodeAt := by
  induction names generalizing p with
  | nil =>
    rw [List.map_nil, List.append_nil] at hlast
    exact nodeAt_congr hlast
  | cons name names ih =>
    have hall := hnames
    have hways := hway
    obtain ⟨hname, hnames⟩ := List.forall_mem_cons.1 hnames
    rw [wayFrom_cons_of_leadsDown hname, List.forall_mem_cons] at hway
    rcases hway.1 with hsame | ⟨hnone, hmade⟩
    · rw [follow_cons_of_leadsDown hname, follow_cons_of_leadsDown hname, hsame]
      split
      · rfl
      · rfl
      · exact ih hnames hway.2 (by simpa using hlast)
    · -- below a place where nothing was there was nothing, and now there are directories at most
      have hbelow {q : Place} (hq : p <+: q) : d.get? q = none := htree.get?_eq_none hnone hq
      rw [follow_cons_of_leadsDown (d := d) hname, hnone]
      refine follow_bind_eq_notFound hall (fun q hq => ?_) ?_
      · obtain ⟨front, -, rfl⟩ := (mem_wayFrom_of_leadsDown hall).1 hq
        rcases hways _ hq with hsame | ⟨-, hdirectory⟩
        · exact .inl (hsame.trans (hbelow (List.prefix_append _ _)))
        · exact .inr hdirectory
      · rw [hlast]
        exact hbelow (List.prefix_append _ _)

/-! ## Paths -/

theorem follow_ne_nil (h : d.get? p ≠ some .directory) (hne : names ≠ []) :
    d.follow p names = match d.get? p with
      | none => .error .notFound
      | some _ => .error .notADirectory := by
  cases names with
  | nil => exact absurd rfl hne
  | cons name names =>
    rw [follow]
    cases hget : d.get? p with
    | none => rfl
    | some node =>
      cases node with
      | file content written => rfl
      | directory => exact absurd hget h

/-- In front of another name the segments that lead nowhere do not matter: that name is looked up in
the same directory anyway. -/
theorem follow_filter {last : List Char} :
    d.follow p (names ++ [last]) = d.follow p (names.filter Path.isStep ++ [last]) := by
  induction names generalizing p with
  | nil => rfl
  | cons name names ih =>
    cases hstep : Path.isStep name with
    | true =>
      rw [List.filter_cons_of_pos hstep, List.cons_append, List.cons_append, follow, follow]
      split
      · rfl
      · rfl
      · simp only [ih]
    | false =>
      rw [List.filter_cons_of_neg (by simp [hstep]), ← ih]
      by_cases hget : d.get? p = some .directory
      · have hskip : name = [] ∨ name = ['.'] := by
          simpa [Path.isStep, Classical.or_iff_not_imp_left] using hstep
        rw [List.cons_append, follow, hget]
        exact if_pos hskip
      · rw [follow_ne_nil hget (by simp), follow_ne_nil hget (by simp)]

/-- What a named path leads to is found by following its steps. -/
theorem node_join {folder name : String} (hname : Path.IsName name) :
    d.node directory (Path.join folder name)
      = (d.follow (if Path.isAbsolute folder then [] else directory)
          (Path.steps (Path.join folder name))).bind d.nodeAt := by
  obtain ⟨names, hnames⟩ := Path.IsName.segments_join folder
  have hsteps : Path.steps (Path.join folder name)
      = names.filter Path.isStep ++ [name.toList] := by
    rw [Path.steps, hnames name hname, List.filter_append, List.filter_cons_of_pos hname.step,
      List.filter_nil]
  rw [node, locate, hname.isEmpty_join, if_neg Bool.false_ne_true, hname.isAbsolute_join,
    hnames name hname, follow_filter, hsteps]
  rfl

/-- The places on a way that was followed are directories, up to the last one. -/
theorem directory_of_follow (h : d.follow p names = .ok q) (hq : d.get? q = some .directory) :
    ∀ r ∈ wayFrom p names, d.get? r = some .directory := by
  induction names generalizing p with
  | nil =>
    obtain rfl : p = q := Except.ok.inj h
    intro r hr
    rw [List.mem_singleton.1 hr, hq]
  | cons name names ih =>
    rw [follow] at h
    split at h
    · cases h
    · cases h
    · rename_i hget
      rw [wayFrom, List.forall_mem_cons]
      refine ⟨hget, ?_⟩
      split at h
      · rename_i hskip
        have hstep : Path.isStep name = false := by
          rcases hskip with rfl | rfl <;> rfl
        rw [hstep]
        exact ih h
      · rename_i hskip
        have hstep : Path.isStep name = true := by simpa [Path.isStep] using hskip
        rw [if_pos hstep, descend]
        split at h
        · rename_i hup
          rw [if_pos hup]
          exact ih h
        · rename_i hup
          rw [if_neg hup]
          split at h
          · cases h
          · exact ih h

/-- Whether a path leads to a directory, or can be led to one by making those that are missing in the
end. -/
def Open (d : Disk) (directory : Place) (path : String) : Prop :=
  ∃ front back p, Path.steps path = front ++ back
    ∧ d.follow (if Path.isAbsolute path then [] else directory) front = .ok p
    ∧ d.get? p = some .directory ∧ ∀ name ∈ back, LeadsDown name

section Below

variable {root path : String} {front back down : List (List Char)}

theorem filter_of_steps (h : Path.steps root = front ++ back) :
    front.filter Path.isStep = front :=
  List.filter_eq_self.2 fun _ hname => (List.mem_filter.1
    (h ▸ List.mem_append_left back hname : _ ∈ Path.steps root)).2

theorem foldl_of_follow (h : Path.steps root = front ++ back) (hfront : d.follow p front = .ok q) :
    front.foldl descend p = q := by
  rw [follow_eq hfront, filter_of_steps h]

/-- An open path leads on from a directory by names that lead down. -/
theorem Open.place_eq (h : Path.steps root = front ++ back)
    (hfront : d.follow (if Path.isAbsolute root then [] else directory) front = .ok p)
    (hback : ∀ name ∈ back, LeadsDown name) :
    place directory root = p ++ back.map String.ofList := by
  rw [place, h, List.foldl_append, foldl_of_follow h hfront,
    foldl_descend (up_not_mem_of_leadsDown hback)]

variable (hopen : d.Open directory root) (habsolute : Path.isAbsolute path = Path.isAbsolute root)
  (hsteps : Path.steps path = Path.steps root ++ down)
include hopen habsolute hsteps

/-- On the way down from a root there are directories, and then places below the root. -/
theorem Open.mem_way (hdown : ['.', '.'] ∉ down) (hq : q ∈ way directory path) :
    d.get? q = some .directory ∨ q <+: place directory root ++ down.map String.ofList := by
  obtain ⟨front, back, p, hroot, hfront, hdirectory, hback⟩ := hopen
  obtain ⟨first, hfirst, rfl⟩ := mem_way_iff.1 hq
  rw [hsteps, hroot, List.append_assoc] at hfirst
  rw [habsolute]
  rcases List.prefix_or_prefix_of_prefix hfirst (List.prefix_append front _) with
    hshort | ⟨more, rfl⟩
  · rw [← filter_of_steps hroot] at hshort
    exact .inl (directory_of_follow hfront hdirectory _ (mem_wayFrom_iff.2 ⟨first, hshort, rfl⟩))
  · have hmore := (List.prefix_append_right_inj _).1 hfirst
    have hup : ['.', '.'] ∉ more := fun hmem =>
      (List.mem_append.1 (hmore.subset hmem)).elim (up_not_mem_of_leadsDown hback) hdown
    rw [place_eq hroot hfront hback, List.foldl_append, foldl_of_follow hroot hfront,
      foldl_descend hup, List.append_assoc, ← List.map_append]
    exact .inr ((List.prefix_append_right_inj _).2 (hmore.map _))

end Below

/-- What is read below an open root does not change when directories stay, others are made on the
way, and the end of the way is as it was. -/
theorem Open.read_congr {root folder name : String} {down : List (List Char)}
    (hopen : d.Open directory root) (htree : d.IsTree) (hkept : d.KeepsDirectories d')
    (hname : Path.IsName name)
    (habsolute : Path.isAbsolute folder = Path.isAbsolute root)
    (hsteps : Path.steps (Path.join folder name) = Path.steps root ++ down)
    (hdown : ∀ name ∈ down, LeadsDown name)
    (hway : ∀ q, q <+: place directory root ++ down.map String.ofList → Kept d d' q)
    (hlast : d'.get? (place directory root ++ down.map String.ofList)
      = d.get? (place directory root ++ down.map String.ofList)) :
    d'.read directory (Path.join folder name) = d.read directory (Path.join folder name) := by
  obtain ⟨front, back, p, hroot, hfront, -, hback⟩ := hopen
  have hrest : ∀ name ∈ back ++ down, LeadsDown name := fun name hmem =>
    (List.mem_append.1 hmem).elim (hback name) (hdown name)
  rw [place_eq hroot hfront hback, List.append_assoc, ← List.map_append] at hway hlast
  have hnode : d'.node directory (Path.join folder name)
      = d.node directory (Path.join folder name) := by
    rw [node_join hname, node_join hname, hsteps, hroot, habsolute, List.append_assoc,
      follow_append, follow_append, hfront, follow_mono hkept hfront]
    refine follow_bind_congr htree hrest (fun q hq => hway q ?_) hlast
    obtain ⟨first, hfirst, rfl⟩ := (mem_wayFrom_of_leadsDown hrest).1 hq
    exact (List.prefix_append_right_inj _).2 (hfirst.map _)
  rw [read, read, hnode]

end Jarwright.Machine.Disk
