import Jarwright.Machine.Disk
import Jarwright.Proofs.Associations
import Jarwright.Proofs.Path

/-!
# What steps change on a disk

Every path names a place, whatever is on the disk (`place`); an access that gets through arrives
there (`locate_eq`). So what a step changes is said by places:

* `write_eq_ok`, `create_eq_ok`, `remove_eq_ok`, `rename_eq_ok` say what a step that succeeds found,
  and which disk it leaves;
* `content?` is the content of the file at a place, and `content?_write`, `content?_create`,
  `content?_remove`, `content?_rename` follow it through the steps;
* `makeDirectories_induction`: directories are made in single steps; `makeDirectories_sameFiles`: this
  changes no file.
-/

namespace Jarwright.Machine.Disk

variable {d d' : Disk} {p q directory : Place} {path : String}

/-! ## Places -/

/-- Where no two nodes share a place, each is found at its own. -/
theorem get?_of_mem {node : Node} (hnodup : (d.nodes.map Prod.fst).Nodup) (hp : p ≠ [])
    (h : (p, node) ∈ d.nodes) : d.get? p = some node := by
  obtain ⟨before, rest, hnodes⟩ := List.append_of_mem h
  have hempty : p.isEmpty = false := by simpa using hp
  unfold get?
  rw [hempty, if_neg (by simp)]
  refine List.lookup_eq_some_iff.2 ⟨before, rest, hnodes, fun e he => ?_⟩
  rw [hnodes, List.map_append, List.map_cons] at hnodup
  have hne := (List.nodup_append.1 hnodup).2.2 e.1 (List.mem_map_of_mem he) p List.mem_cons_self
  simpa using hne.symm

theorem get?_put (hp : p ≠ []) (node : Node) :
    (d.put p node).get? q = if q = p then some node else d.get? q := by
  have hempty : p.isEmpty = false := by simpa using hp
  have hnodes : (d.put p node).nodes = if d.nodes.any (·.1 == p)
      then d.nodes.map fun e => if e.1 == p then (p, node) else e else d.nodes ++ [(p, node)] := by
    unfold put
    split <;> rfl
  unfold get?
  rw [hnodes, Associations.lookup_put d.nodes (p, node) q]
  by_cases hq : q = p
  · rw [if_pos hq, if_pos hq, hq, hempty]
    rfl
  · rw [if_neg hq, if_neg hq]

theorem get?_erase (hp : p ≠ []) : (d.erase p).get? q = if q = p then none else d.get? q := by
  unfold get? erase
  rw [Associations.lookup_filter (fun q => q != p)]
  by_cases hq : q = p
  · subst hq
    simp [hp]
  · simp [hq]

/-- The root stays, even if it is what the tree begins with. -/
theorem get?_eraseBelow (d : Disk) (p q : Place) :
    (d.eraseBelow p).get? q = if p <+: q ∧ q ≠ [] then none else d.get? q := by
  unfold get? eraseBelow
  rw [Associations.lookup_filter (fun q => !p.isPrefixOf q)]
  by_cases hroot : q = []
  · simp [hroot]
  · by_cases hbelow : p <+: q
    · have hleft : p.isPrefixOf q = true := List.isPrefixOf_iff_prefix.2 hbelow
      simp [hroot, hbelow, hleft]
    · have hkept : p.isPrefixOf q = false := by
        rwa [← Bool.not_eq_true, List.isPrefixOf_iff_prefix]
      simp [hroot, hbelow, hkept]

/-- The content of a file. -/
def nodeContent? : Node → Option Bytes
  | .file content _ => some content
  | .directory => none

/-- The content of the file at a place, if there is one. -/
def content? (d : Disk) (p : Place) : Option Bytes := (d.get? p).bind nodeContent?

theorem content?_eq_some_iff {content : Bytes} :
    d.content? p = some content ↔ ∃ written, d.get? p = some (.file content written) := by
  unfold content?
  cases hget : d.get? p with
  | none => simp
  | some node => cases node <;> simp [nodeContent?]

theorem content?_of_none (h : d.get? p = none) : d.content? p = none := by
  rw [content?, h]
  rfl

theorem content?_put (hp : p ≠ []) (node : Node) :
    (d.put p node).content? q = if q = p then nodeContent? node else d.content? q := by
  rw [content?, get?_put hp]
  by_cases hq : q = p
  · rw [if_pos hq, if_pos hq]
    rfl
  · rw [if_neg hq, if_neg hq]
    rfl

theorem content?_erase (hp : p ≠ []) :
    (d.erase p).content? q = if q = p then none else d.content? q := by
  rw [content?, get?_erase hp]
  by_cases hq : q = p
  · rw [if_pos hq, if_pos hq]
    rfl
  · rw [if_neg hq, if_neg hq]
    rfl

theorem ne_nil_of_get? (h : d.get? p ≠ some .directory) : p ≠ [] := by
  rintro rfl
  exact h rfl

theorem ne_nil_of_none (h : d.get? p = none) : p ≠ [] := ne_nil_of_get? (by rw [h]; simp)

theorem ne_nil_of_content? {content : Bytes} (h : d.content? p = some content) : p ≠ [] := by
  rintro rfl
  cases h

/-! ## Paths -/

/-- The place that a step leads to. -/
def descend (p : Place) (name : List Char) : Place :=
  if name = ['.', '.'] then p.dropLast else p ++ [String.ofList name]

/-- The place that a path names, whatever is there. -/
def place (directory : Place) (path : String) : Place :=
  (Path.steps path).foldl descend (if Path.isAbsolute path then [] else directory)

/-- Following names leads to the place that they name. -/
theorem follow_eq {names : List (List Char)} (h : d.follow p names = .ok q) :
    q = (names.filter Path.isStep).foldl descend p := by
  induction names generalizing p with
  | nil => exact (Except.ok.inj h).symm
  | cons name names ih =>
    rw [follow] at h
    split at h
    · cases h
    · cases h
    · split at h
      · rename_i hskip
        have hstep : Path.isStep name = false := by
          rcases hskip with rfl | rfl <;> rfl
        rw [List.filter_cons_of_neg (by simp [hstep])]
        exact ih h
      · rename_i hskip
        have hstep : Path.isStep name = true := by
          simpa [Path.isStep] using hskip
        rw [List.filter_cons_of_pos hstep, List.foldl_cons, descend]
        split at h
        · rename_i hup
          rw [if_pos hup]
          exact ih h
        · rename_i hup
          rw [if_neg hup]
          split at h
          · cases h
          · exact ih h

theorem locate_eq (h : d.locate directory path = .ok p) : p = place directory path := by
  unfold locate at h
  split at h
  · cases h
  · exact follow_eq h

/-- What is found on a way is found there as long as directories are not taken away. -/
theorem follow_mono {names : List (List Char)}
    (hdirectories : ∀ r, d.get? r = some .directory → d'.get? r = some .directory)
    (h : d.follow p names = .ok q) : d'.follow p names = .ok q := by
  induction names generalizing p with
  | nil => exact h
  | cons name names ih =>
    rw [follow] at h ⊢
    split at h
    · cases h
    · cases h
    · rename_i hget
      rw [hdirectories p hget]
      dsimp only
      split at h
      · rename_i hskip
        rw [if_pos hskip]
        exact ih h
      · rename_i hskip
        rw [if_neg hskip]
        split at h
        · rename_i hup
          rw [if_pos hup]
          exact ih h
        · rename_i hup
          rw [if_neg hup]
          split at h
          · cases h
          · rename_i hbad
            rw [if_neg hbad]
            exact ih h

theorem locate_mono
    (hdirectories : ∀ r, d.get? r = some .directory → d'.get? r = some .directory)
    (h : d.locate directory path = .ok p) : d'.locate directory path = .ok p := by
  unfold locate at h ⊢
  split at h
  · cases h
  · rename_i hempty
    rw [if_neg hempty]
    exact follow_mono hdirectories h

/-! ## Names in a folder -/

section Names

variable {folder name name' : String}

theorem place_join (hname : Path.IsName name) :
    place directory (Path.join folder name) = place directory folder ++ [name] := by
  have hdescend (r : Place) : descend r name.toList = r ++ [name] := by
    have hup : name.toList ≠ ['.', '.'] := fun h => hname.ne_up (String.toList_inj.1 h)
    rw [descend, if_neg hup, String.ofList_toList]
  rw [place, place, Path.steps_join folder hname.isAbsolute, hname.steps, List.foldl_append,
    List.foldl_cons, List.foldl_nil, hdescend, hname.isAbsolute_join]

theorem follow_append (p : Place) (names more : List (List Char)) :
    d.follow p (names ++ more) = (d.follow p names).bind fun q => d.follow q more := by
  induction names generalizing p with
  | nil => rfl
  | cons name names ih =>
    rw [List.cons_append, follow, follow]
    split
    · rfl
    · rfl
    · split
      · exact ih p
      · split
        · exact ih _
        · split
          · rfl
          · exact ih _

theorem follow_singleton_eq_ok (hname : Path.IsName name) :
    d.follow p [name.toList] = .ok q
      ↔ d.get? p = some .directory ∧ isBadName name.toList = false ∧ q = p ++ [name] := by
  have hskip : ¬ (name.toList = [] ∨ name.toList = ['.']) := by
    simpa [Path.isStep] using hname.step
  have hup : name.toList ≠ ['.', '.'] := fun h => hname.ne_up (String.toList_inj.1 h)
  rw [follow]
  split
  · rename_i hget
    simp [hget]
  · rename_i hget
    simp [hget]
  · rename_i hget
    rw [if_neg hskip, if_neg hup, String.ofList_toList]
    cases hbad : isBadName name.toList with
    | true => simp
    | false => simp [follow, hget, eq_comm]

/-- A name in a folder is found where the folder is, if a file can have the name. -/
theorem locate_join_eq_ok (directory : Place) (folder : String) :
    ∃ names, ∀ (d : Disk) (name : String) (q : Place), Path.IsName name →
      (d.locate directory (Path.join folder name) = .ok q ↔
        ∃ p, d.follow (if Path.isAbsolute folder then [] else directory) names = .ok p
          ∧ d.get? p = some .directory ∧ isBadName name.toList = false ∧ q = p ++ [name]) := by
  obtain ⟨names, hnames⟩ := Path.IsName.segments_join folder
  refine ⟨names, fun d name q hname => ?_⟩
  rw [locate, hname.isEmpty_join, if_neg Bool.false_ne_true, hname.isAbsolute_join,
    hnames name hname, follow_append]
  cases hfollow : d.follow (if Path.isAbsolute folder then [] else directory) names with
  | error e => simp [Except.bind]
  | ok p => simp [Except.bind, follow_singleton_eq_ok hname]

theorem not_isBadName_of_locate (hname : Path.IsName name)
    (h : d.locate directory (Path.join folder name) = .ok p) : isBadName name.toList = false := by
  obtain ⟨names, hnames⟩ := locate_join_eq_ok directory folder
  obtain ⟨-, -, -, hbad, -⟩ := (hnames d name p hname).1 h
  exact hbad

/-- Where one name is found in a folder another one is found too. -/
theorem locate_sibling (hname : Path.IsName name) (hname' : Path.IsName name')
    (hbad : isBadName name'.toList = false)
    (h : d.locate directory (Path.join folder name) = .ok p) :
    d.locate directory (Path.join folder name')
      = .ok (place directory (Path.join folder name')) := by
  obtain ⟨names, hnames⟩ := locate_join_eq_ok directory folder
  obtain ⟨r, hfollow, hget, -, -⟩ := (hnames d name p hname).1 h
  have hfound := (hnames d name' _ hname').2 ⟨r, hfollow, hget, hbad, rfl⟩
  rw [hfound, ← locate_eq hfound]

/-- The beginning of a name is not longer than the name. -/
theorem isBadName_of_append {front back : List Char} (h : isBadName (front ++ back) = false) :
    isBadName front = false := by
  have hsize (n : Nat) (cs : List Char) : n ≤ cs.foldl (fun n c => n + c.utf8Size) n := by
    induction cs generalizing n with
    | nil => exact Nat.le_refl n
    | cons c cs ih => exact Nat.le_trans (Nat.le_add_right n _) (ih _)
  simp only [isBadName, Bool.or_eq_false_iff, decide_eq_false_iff_not, Nat.not_lt,
    List.foldl_append] at h ⊢
  obtain ⟨hzero, hlength⟩ := h
  refine ⟨?_, Nat.le_trans (hsize _ back) hlength⟩
  simp only [List.contains_eq_mem, decide_eq_false_iff_not] at hzero ⊢
  exact fun hmem => hzero (List.mem_append_left _ hmem)

end Names

/-! ## Looking -/

theorem bind_eq_ok {α β : Type} {x : Except Fault α} {f : α → Except Fault β} {b : β} :
    (x >>= f) = .ok b ↔ ∃ a, x = .ok a ∧ f a = .ok b := by
  cases x <;> simp [bind, Except.bind]

theorem node_eq_ok_iff {node : Node} :
    d.node directory path = .ok node
      ↔ d.locate directory path = .ok (place directory path)
        ∧ d.get? (place directory path) = some node := by
  rw [Disk.node, bind_eq_ok]
  constructor
  · rintro ⟨p, hlocate, hget⟩
    obtain rfl := locate_eq hlocate
    refine ⟨hlocate, ?_⟩
    split at hget
    · rename_i hnode
      rwa [← Except.ok.inj hget]
    · cases hget
  · rintro ⟨hlocate, hget⟩
    refine ⟨_, hlocate, ?_⟩
    rw [hget]
    rfl

theorem read_eq_ok_iff {content : Bytes} :
    d.read directory path = .ok content
      ↔ d.locate directory path = .ok (place directory path)
        ∧ d.content? (place directory path) = some content := by
  rw [read, bind_eq_ok, content?_eq_some_iff]
  constructor
  · rintro ⟨node, hnode, hcontent⟩
    obtain ⟨hlocate, hget⟩ := node_eq_ok_iff.1 hnode
    cases node with
    | directory => cases hcontent
    | file b written =>
      obtain rfl := Except.ok.inj hcontent
      exact ⟨hlocate, written, hget⟩
  · rintro ⟨hlocate, written, hget⟩
    exact ⟨_, node_eq_ok_iff.2 ⟨hlocate, hget⟩, rfl⟩

theorem isFile_iff :
    d.isFile directory path = true
      ↔ d.locate directory path = .ok (place directory path)
        ∧ ∃ content, d.content? (place directory path) = some content := by
  unfold isFile
  constructor
  · intro h
    split at h
    · rename_i content written hnode
      obtain ⟨hlocate, hget⟩ := node_eq_ok_iff.1 hnode
      exact ⟨hlocate, content, content?_eq_some_iff.2 ⟨written, hget⟩⟩
    · cases h
  · rintro ⟨hlocate, content, hcontent⟩
    obtain ⟨written, hget⟩ := content?_eq_some_iff.1 hcontent
    rw [node_eq_ok_iff.2 ⟨hlocate, hget⟩]

/-! ## Steps -/

theorem write_eq_ok {now : Nat} {content : Bytes}
    (h : d.write directory now path content = .ok d') :
    d.locate directory path = .ok (place directory path)
      ∧ d.get? (place directory path) ≠ some .directory
      ∧ d' = d.put (place directory path) (.file content now) := by
  obtain ⟨p, hlocate, hstep⟩ := bind_eq_ok.1 h
  obtain rfl := locate_eq hlocate
  split at hstep
  · cases hstep
  · rename_i hnode
    exact ⟨hlocate, hnode, (Except.ok.inj hstep).symm⟩

theorem content?_write {now : Nat} {content : Bytes}
    (h : d.write directory now path content = .ok d') (q : Place) :
    d'.content? q = if q = place directory path then some content else d.content? q := by
  obtain ⟨-, hdirectory, rfl⟩ := write_eq_ok h
  exact content?_put (ne_nil_of_get? hdirectory) _

theorem create_eq_ok {now : Nat} (h : d.create directory now path = .ok d') :
    d.locate directory path = .ok (place directory path)
      ∧ d.get? (place directory path) = none
      ∧ d' = d.put (place directory path) (.file [] now) := by
  obtain ⟨p, hlocate, hstep⟩ := bind_eq_ok.1 h
  obtain rfl := locate_eq hlocate
  split at hstep
  · cases hstep
  · rename_i hnode
    exact ⟨hlocate, hnode, (Except.ok.inj hstep).symm⟩

/-- Creating a file changes no other one, and leaves the way to it open. -/
theorem content?_create {now : Nat} (h : d.create directory now path = .ok d') :
    d.content? (place directory path) = none
      ∧ (∀ q, q ≠ place directory path → d'.content? q = d.content? q)
      ∧ d'.locate directory path = .ok (place directory path) := by
  obtain ⟨hlocate, hnone, rfl⟩ := create_eq_ok h
  have hroot : place directory path ≠ [] := ne_nil_of_none hnone
  refine ⟨content?_of_none hnone, fun q hq => ?_, locate_mono (fun r hr => ?_) hlocate⟩
  · rw [content?_put hroot, if_neg hq]
  · have hne : r ≠ place directory path := by
      rintro rfl
      rw [hnone] at hr
      cases hr
    rw [get?_put hroot, if_neg hne, hr]

theorem remove_eq_ok (h : d.remove directory path = .ok d') :
    (∃ content, d.content? (place directory path) = some content)
      ∧ d' = d.erase (place directory path) := by
  obtain ⟨p, hlocate, hstep⟩ := bind_eq_ok.1 h
  obtain rfl := locate_eq hlocate
  split at hstep
  · rename_i content written hnode
    exact ⟨⟨content, content?_eq_some_iff.2 ⟨written, hnode⟩⟩, (Except.ok.inj hstep).symm⟩
  · cases hstep
  · cases hstep

theorem content?_remove (h : d.remove directory path = .ok d') (q : Place) :
    d'.content? q = if q = place directory path then none else d.content? q := by
  obtain ⟨⟨content, hcontent⟩, rfl⟩ := remove_eq_ok h
  exact content?_erase (ne_nil_of_content? hcontent)

/-- Where a path leads somewhere, nothing is found only if nothing is there. -/
theorem content?_of_remove_eq_notFound (hlocate : d.locate directory path = .ok p)
    (h : d.remove directory path = .error .notFound) : d.content? p = none := by
  rw [remove, hlocate] at h
  simp only [bind, Except.bind] at h
  split at h
  · cases h
  · cases h
  · rename_i hnode
    exact content?_of_none hnode

/-- A directory is made at the place of its path, with slashes at the end or without. -/
theorem makeDirectory_eq_ok (h : d.makeDirectory directory path = .ok d') :
    d.get? (place directory path) = none ∧ d' = d.put (place directory path) .directory := by
  obtain ⟨p, hlocate, hstep⟩ := bind_eq_ok.1 h
  obtain rfl : p = place directory path := by
    split at hlocate
    · exact locate_eq hlocate
    · rename_i hne
      rw [locate_eq hlocate, place, place, Path.steps_trimEndWith,
        Path.isAbsolute_trimEndWith (by simpa using hne)]
  split at hstep
  · cases hstep
  · rename_i hnode
    exact ⟨hnode, (Except.ok.inj hstep).symm⟩

theorem rename_eq_ok {target : String} (h : d.rename directory path target = .ok d') :
    d.locate directory target = .ok (place directory target)
      ∧ ∃ content written, d.get? (place directory path) = some (.file content written)
        ∧ d.get? (place directory target) ≠ some .directory
        ∧ d' = if place directory path = place directory target then d
          else (d.erase (place directory path)).put (place directory target)
            (.file content written) := by
  obtain ⟨p, hsource, hstep⟩ := bind_eq_ok.1 h
  obtain rfl := locate_eq hsource
  obtain ⟨q, htarget, hstep⟩ := bind_eq_ok.1 hstep
  obtain rfl := locate_eq htarget
  split at hstep
  · rename_i content written hnode
    split at hstep
    · cases hstep
    · rename_i hdirectory
      refine ⟨htarget, content, written, hnode, hdirectory, ?_⟩
      split at hstep
      · rename_i hsame
        rw [if_pos hsame]
        exact (Except.ok.inj hstep).symm
      · rename_i hsame
        rw [if_neg hsame]
        exact (Except.ok.inj hstep).symm
  · cases hstep
  · cases hstep

theorem content?_rename {target : String} (h : d.rename directory path target = .ok d')
    (hne : place directory path ≠ place directory target) :
    ∃ content, d.content? (place directory path) = some content
      ∧ ∀ q, d'.content? q = if q = place directory target then some content
        else if q = place directory path then none else d.content? q := by
  obtain ⟨-, content, written, hsource, hdirectory, rfl⟩ := rename_eq_ok h
  have hcontent : d.content? (place directory path) = some content :=
    content?_eq_some_iff.2 ⟨written, hsource⟩
  refine ⟨content, hcontent, fun q => ?_⟩
  rw [if_neg hne, content?_put (ne_nil_of_get? hdirectory),
    content?_erase (ne_nil_of_content? hcontent)]
  rfl

/-! ## Directories -/

/-- Whether two disks have the same files. -/
def SameFiles (d d' : Disk) : Prop := ∀ q, d'.content? q = d.content? q

theorem SameFiles.refl (d : Disk) : d.SameFiles d := fun _ => rfl

theorem SameFiles.trans {d₁ d₂ d₃ : Disk} (h : d₁.SameFiles d₂) (h' : d₂.SameFiles d₃) :
    d₁.SameFiles d₃ := fun q => (h' q).trans (h q)

theorem sameFiles_of_makeDirectory (h : d.makeDirectory directory path = .ok d') :
    d.SameFiles d' := by
  obtain ⟨hnone, rfl⟩ := makeDirectory_eq_ok h
  intro q
  rw [content?_put (ne_nil_of_none hnone)]
  by_cases hq : q = place directory path
  · rw [if_pos hq, hq, content?_of_none hnone]
    rfl
  · rw [if_neg hq]

/-- Directories are made one by one, at the path and at those above it: what holds at first, and
holds again after each step, holds in the end of the disk and of the steps. -/
theorem makeDirectories_induction {P : String → Prop} {M : Disk → List Disk → Prop}
    (hparent : ∀ path parent, P path → Path.parent? path = some parent → P parent)
    (hstep : ∀ path d d' steps, P path → M d steps → d.makeDirectory directory path = .ok d' →
      M d' (d' :: steps))
    (hpath : P path) (hstart : M d []) (n : Nat) :
    M (makeDirectories directory path n d).1 (makeDirectories directory path n d).2.1 := by
  induction n generalizing path with
  | zero => exact hstart
  | succ n ih =>
    rw [makeDirectories]
    split
    · exact hstart
    split
    · rename_i d' hmade
      exact hstep path d d' [] hpath hstart hmade
    · split
      · exact hstart
      · rename_i parent heq
        have hrest := ih (hparent path parent hpath heq)
        split
        · rename_i hrun
          rwa [hrun] at hrest
        · rename_i d₁ steps hrun
          rw [hrun] at hrest
          split
          · rename_i d' hmade
            exact hstep path d₁ d' steps hpath hrest hmade
          · exact hrest
    · exact hstart

/-- On the way to a directory no file is changed; the last disk on the way is the result. -/
theorem makeDirectories_sameFiles (directory : Place) (path : String) (n : Nat) (d : Disk) :
    (∀ d' ∈ (makeDirectories directory path n d).2.1, d.SameFiles d')
      ∧ ((makeDirectories directory path n d).2.1 ++ [d]).head?
        = some (makeDirectories directory path n d).1 := by
  refine makeDirectories_induction (P := fun _ => True)
    (M := fun d' steps => (∀ e ∈ steps, d.SameFiles e) ∧ (steps ++ [d]).head? = some d')
    (fun _ _ _ _ => trivial) ?_ trivial ⟨fun _ h => absurd h List.not_mem_nil, rfl⟩ n
  rintro path d₁ d' steps - ⟨hsame, hhead⟩ hmade
  have hlast : d.SameFiles d₁ := by
    rcases List.mem_append.1 (List.mem_of_mem_head? hhead) with hmem | hmem
    · exact hsame d₁ hmem
    · rw [List.mem_singleton.1 hmem]
      exact SameFiles.refl d
  refine ⟨fun e he => ?_, rfl⟩
  rcases List.mem_cons.1 he with rfl | he
  · exact hlast.trans (sameFiles_of_makeDirectory hmade)
  · exact hsame e he

end Jarwright.Machine.Disk
