import Jarwright.Proofs.Machine.Ways

/-!
# What is left when a tree is removed

Removing a directory takes away what is at its place and below, and nothing else. The path of the
directory leads nowhere then, whatever it says: if its end is the root, which cannot be removed, it
must go down into something that is gone.

* `Disk.removeTree_of_holds`: how removing something ends;
* `Disk.not_holds_eraseBelow`: the path of what was removed;
* `Disk.holds_of_holds_join`: what holds something is there itself.
-/

namespace Jarwright.Machine.Disk

variable {d d' : Disk} {directory p q : Place} {path folder name : String}

theorem holds_iff : d.holds directory path = true
    ↔ d.locate directory path = .ok (place directory path)
      ∧ ∃ node, d.get? (place directory path) = some node := by
  unfold holds
  constructor
  · intro h
    cases hnode : d.node directory path with
    | error e =>
      rw [hnode] at h
      cases h
    | ok node =>
      obtain ⟨hlocate, hget⟩ := node_eq_ok_iff.1 hnode
      exact ⟨hlocate, node, hget⟩
  · rintro ⟨hlocate, node, hget⟩
    rw [node_eq_ok_iff.2 ⟨hlocate, hget⟩]
    rfl

/-- What is there is removed with all that is below it, unless it is a file. -/
theorem removeTree_of_holds (h : d.holds directory path = true) :
    d.removeTree directory path = .ok (d.eraseBelow (place directory path))
      ∨ d.isFile directory path = true ∧ ∃ e, d.removeTree directory path = .error e := by
  obtain ⟨hlocate, node, hget⟩ := holds_iff.1 h
  unfold removeTree
  rw [hlocate]
  simp only [bind, Except.bind, hget]
  cases node with
  | directory => exact .inl rfl
  | file content written =>
    exact .inr ⟨isFile_iff.2 ⟨hlocate, content, content?_eq_some_iff.2 ⟨written, hget⟩⟩, _, rfl⟩

/-- A path that led nowhere before leads nowhere when the tree at its place is removed. -/
theorem not_holds_eraseBelow (h : d.holds directory path = false) :
    (d'.eraseBelow (place directory path)).holds directory path = false := by
  by_contra hholds
  obtain ⟨hlocate, node, hget⟩ := holds_iff.1 (Bool.not_eq_false _ ▸ hholds)
  have hroot : place directory path = [] := by
    by_contra hne
    rw [get?_eraseBelow, if_pos ⟨List.prefix_refl _, hne⟩] at hget
    cases hget
  -- nothing but the root is left, so the way to it leads through the root only
  have hkept (r : Place) (hr : (d'.eraseBelow (place directory path)).get? r = some .directory) :
      d.get? r = some .directory := by
    rw [get?_eraseBelow, hroot] at hr
    split at hr
    · cases hr
    · rename_i hnot
      obtain rfl : r = [] := by simpa using hnot
      rfl
  have hbefore : d.holds directory path = true :=
    holds_iff.2 ⟨locate_mono hkept hlocate, .directory, by rw [hroot]; rfl⟩
  rw [h] at hbefore
  cases hbefore

/-- Below the place of what was removed nothing is left. -/
theorem not_holds_eraseBelow_join (hname : Path.IsName name)
    (hp : p <+: place directory (Path.join folder name)) :
    (d.eraseBelow p).holds directory (Path.join folder name) = false := by
  by_contra hholds
  obtain ⟨-, node, hget⟩ := holds_iff.1 (Bool.not_eq_false _ ▸ hholds)
  have hne : place directory (Path.join folder name) ≠ [] := by
    rw [place_join hname]
    simp
  rw [get?_eraseBelow, if_pos ⟨hp, hne⟩] at hget
  cases hget

/-- A folder in which something is found is there, unless it is not named at all. -/
theorem holds_of_holds_join (hfolder : folder ≠ "") (hname : Path.IsName name)
    (h : d.holds directory (Path.join folder name) = true) : d.holds directory folder = true := by
  obtain ⟨hempty, -⟩ | ⟨-, front, hfront, hcases⟩ := Path.asFolder_cases folder
  · exact absurd hempty hfolder
  obtain ⟨hlocate, -⟩ := holds_iff.1 h
  have hsegments : Path.segments (Path.join folder name)
      = Path.segments front ++ [name.toList] := by
    rw [Path.join_of_relative folder hname.isAbsolute, hfront, Path.segments_append_slash,
      Path.segments_of_not_mem hname.slash]
  rw [locate, hname.isEmpty_join, if_neg Bool.false_ne_true, hsegments, hname.isAbsolute_join,
    follow_append] at hlocate
  obtain ⟨p, hfollow, hlast⟩ := bind_eq_ok.1 hlocate
  obtain ⟨hget, -, -⟩ := (follow_singleton_eq_ok hname).1 hlast
  have hfound : d.locate directory folder = .ok p := by
    rw [locate, if_neg (by simpa using hfolder)]
    rcases hcases with hcases | hcases
    · rw [hcases] at hfollow ⊢
      exact hfollow
    · -- the slash at the end only asks for a directory
      have hslash := Path.segments_append_slash front ""
      rw [String.append_empty, ← hcases] at hslash
      rw [hslash, follow_append, hfollow, Path.segments_of_not_mem (by simp)]
      simp [Except.bind, follow, hget]
  have hplace := locate_eq hfound
  exact holds_iff.2 ⟨by rw [hfound, hplace], .directory, by rw [← hplace, hget]⟩

end Jarwright.Machine.Disk
