import Jarwright.Path
import Jarwright.Proofs.Text.Splitting
import Jarwright.Proofs.Text.Trimming

/-!
# What a path says

Of the segments of a path only some lead anywhere: empty ones and dots do not. `steps` keeps the
others, so that two paths with the same beginning and the same steps mean the same.

* `steps_join`: seen from a base, a path goes on with its own steps;
* `parent?_of_fileName?`: the parent of a named file has all its steps but the last;
* `parent?_eq_some`, `steps_trimEndWith`: what becomes of the steps on the way up, and without the
  slashes at the end;
* `Below root p`: the components of `p` are those of `root` and then some without a step up.
-/

namespace Jarwright.Path

/-! ## Segments -/

theorem segments_ne_nil {p : String} : segments p ≠ [] := Text.splitOn_ne_nil

theorem slash_not_mem_of_mem_segments {p : String} {s : List Char} (h : s ∈ segments p) :
    '/' ∉ s := Text.not_mem_of_mem_splitOn h

theorem segments_of_not_mem {p : String} (h : '/' ∉ p.toList) : segments p = [p.toList] :=
  Text.splitOn_of_not_mem h

theorem segments_ofSegments {ss : List (List Char)} (hne : ss ≠ []) (h : ∀ s ∈ ss, '/' ∉ s) :
    segments (ofSegments ss) = ss := by
  rw [segments, ofSegments, String.toList_ofList, Text.splitOn_intercalate hne h]

theorem segments_append_slash (p q : String) :
    segments (p ++ "/" ++ q) = segments p ++ segments q := by
  have hsplit : (p ++ "/" ++ q).toList = p.toList ++ '/' :: q.toList := by simp
  rw [segments, hsplit, Text.splitOn_append_cons, segments, segments]

/-- The first segment of a path from the root is empty, and another one follows. -/
theorem isAbsolute_iff {p : String} :
    isAbsolute p = true ↔ ∃ s ss, segments p = [] :: s :: ss := by
  rw [isAbsolute, beq_iff_eq, segments]
  constructor
  · intro h
    obtain ⟨cs, hcs⟩ := List.head?_eq_some_iff.1 h
    rw [hcs]
    have hsplit := Text.splitOn_append_cons '/' [] cs
    rw [List.nil_append] at hsplit
    obtain ⟨s, ss, hss⟩ : ∃ s ss, Text.splitOn '/' cs = s :: ss :=
      List.exists_cons_of_ne_nil Text.splitOn_ne_nil
    exact ⟨s, ss, by rw [hsplit, hss]; rfl⟩
  · rintro ⟨s, ss, h⟩
    rw [← Text.intercalate_splitOn '/' p.toList, h, List.intercalate_cons_cons]
    rfl

/-! ## Steps -/

/-- Whether a segment leads anywhere. -/
def isStep (s : List Char) : Bool := s != [] && s != ['.']

/-- The segments that lead anywhere. -/
def steps (p : String) : List (List Char) := (segments p).filter isStep

/-- The dot at the start of a path, if there is one. -/
def leadingDot (p : String) : List (List Char) :=
  if (segments p).head? = some ['.'] then [['.']] else []

/-- Behind the start of a path the segments that count are the steps. -/
theorem map_filter_zipIdx (ss : List (List Char)) {k : Nat} (hk : k ≠ 0) :
    ((ss.zipIdx k).filter fun (s, i) => s != [] && (s != ['.'] || i == 0)).map Prod.fst
      = ss.filter isStep := by
  induction ss generalizing k with
  | nil => rfl
  | cons s ss ih =>
    have hs : (s != [] && (s != ['.'] || k == 0)) = isStep s := by
      rw [isStep, beq_false_of_ne hk, Bool.or_false]
    rw [List.zipIdx_cons, List.filter_cons, List.filter_cons]
    simp only [hs]
    split
    · rw [List.map_cons, ih (Nat.succ_ne_zero k)]
    · exact ih (Nat.succ_ne_zero k)

theorem map_places (p : String) : (places p).map Prod.fst = leadingDot p ++ steps p := by
  obtain ⟨s, ss, hss⟩ := List.exists_cons_of_ne_nil (segments_ne_nil (p := p))
  rw [places, leadingDot, steps, hss, List.zipIdx_cons, List.filter_cons, List.filter_cons]
  by_cases hdot : s = ['.']
  · simp [hdot, isStep, map_filter_zipIdx]
  · by_cases hnil : s = [] <;> simp [hdot, hnil, isStep, map_filter_zipIdx]

theorem components_eq (p : String) :
    components p = (leadingDot p ++ steps p).map String.ofList := by
  rw [← map_places, components, List.map_map]
  rfl

/-- A step up is a component like any other. -/
theorem mem_components_iff {p : String} {name : String} (hname : name ≠ ".") :
    name ∈ components p ↔ name.toList ∈ steps p := by
  rw [components_eq, List.map_append, List.mem_append, List.mem_map, List.mem_map]
  constructor
  · rintro (⟨s, hs, rfl⟩ | ⟨s, hs, rfl⟩)
    · rw [leadingDot] at hs
      split at hs
      · obtain rfl := List.mem_singleton.1 hs
        exact absurd rfl hname
      · cases hs
    · rwa [String.toList_ofList]
  · exact fun h => .inr ⟨_, h, String.ofList_toList⟩

/-! ## Joining -/

/-- A base as it stands in front of a relative path. -/
def asFolder (base : String) : String :=
  match base.toList.getLast? with
  | none => base
  | some c => if c = '/' then base else base ++ "/"

theorem join_eq (base p : String) :
    join base p = if isAbsolute p then p else asFolder base ++ p := by
  unfold join asFolder
  split
  · rfl
  · cases hlast : base.toList.getLast? with
    | none =>
      rw [List.getLast?_eq_none_iff] at hlast
      exact String.toList_inj.1 (by simp [hlast])
    | some c =>
      dsimp only
      split <;> rfl

theorem join_of_relative {p : String} (base : String) (hp : isAbsolute p = false) :
    join base p = asFolder base ++ p := by rw [join_eq, hp, if_neg Bool.false_ne_true]

theorem join_of_isAbsolute {p : String} (base : String) (hp : isAbsolute p = true) :
    join base p = p := by rw [join_eq, if_pos hp]

/-- A base is empty, or it stands in front of a relative path with one slash behind it. -/
theorem asFolder_cases (base : String) :
    base = "" ∧ asFolder base = ""
    ∨ base ≠ "" ∧ ∃ front, asFolder base = front ++ "/" ∧ (base = front ∨ base = front ++ "/") := by
  unfold asFolder
  split
  · rename_i hlast
    rw [List.getLast?_eq_none_iff] at hlast
    obtain rfl : base = "" := String.toList_inj.1 hlast
    exact .inl ⟨rfl, rfl⟩
  · rename_i c hlast
    obtain ⟨front, hfront⟩ := List.getLast?_eq_some_iff.1 hlast
    refine .inr ⟨?_, ?_⟩
    · rintro rfl
      cases hlast
    · split
      · rename_i hc
        have hbase : base = String.ofList front ++ "/" :=
          String.toList_inj.1 (by simp [hfront, hc])
        exact ⟨_, hbase, .inr hbase⟩
      · exact ⟨base, rfl, .inl rfl⟩

theorem isAbsolute_append {front : String} (hfront : front ≠ "") (p : String) :
    isAbsolute (front ++ p) = isAbsolute front := by
  obtain ⟨c, cs, hcs⟩ := List.exists_cons_of_ne_nil
    fun h : front.toList = [] => hfront (String.toList_inj.1 h)
  simp [isAbsolute, hcs]

theorem isAbsolute_join (base p : String) :
    isAbsolute (join base p) = (isAbsolute base || isAbsolute p) := by
  cases hp : isAbsolute p with
  | true => rw [join_of_isAbsolute base hp, hp, Bool.or_true]
  | false =>
    rw [join_of_relative base hp, Bool.or_false]
    obtain ⟨rfl, hfolder⟩ | ⟨hne, front, hfolder, hbase⟩ := asFolder_cases base
    · rw [hfolder, String.empty_append, hp]
      rfl
    · have hfolderBase : ∃ back, asFolder base = base ++ back := by
        rcases hbase with rfl | hbase
        · exact ⟨"/", hfolder⟩
        · exact ⟨"", by rw [hfolder, hbase, String.append_empty]⟩
      obtain ⟨back, hback⟩ := hfolderBase
      rw [hback, String.append_assoc, isAbsolute_append hne]

/-- Seen from a base, a path goes on with its own steps. -/
theorem steps_join {p : String} (base : String) (hp : isAbsolute p = false) :
    steps (join base p) = steps base ++ steps p := by
  rw [join_of_relative base hp]
  obtain ⟨rfl, hfolder⟩ | ⟨-, front, hfolder, hbase⟩ := asFolder_cases base
  · rw [hfolder, String.empty_append]
    rfl
  · have hfront : steps base = steps front := by
      rcases hbase with rfl | hbase
      · rfl
      · have hslash := segments_append_slash front ""
        rw [String.append_empty] at hslash
        rw [hbase, steps, hslash, List.filter_append, steps]
        exact List.append_nil _
    rw [hfront, hfolder, steps, segments_append_slash, List.filter_append, steps, steps]

theorem leadingDot_join {base p : String} (hp : isAbsolute p = false)
    (hdot : base = "" → leadingDot p = []) : leadingDot (join base p) = leadingDot base := by
  rw [join_of_relative base hp]
  obtain ⟨rfl, hfolder⟩ | ⟨-, front, hfolder, hbase⟩ := asFolder_cases base
  · rw [hfolder, String.empty_append, hdot rfl]
    rfl
  · obtain ⟨s, ss, hss⟩ := List.exists_cons_of_ne_nil (segments_ne_nil (p := front))
    have hhead (q : String) : leadingDot (front ++ "/" ++ q) = leadingDot front := by
      rw [leadingDot, leadingDot, segments_append_slash, hss]
      rfl
    rw [hfolder, hhead]
    rcases hbase with rfl | hbase
    · rfl
    · have hslash := hhead ""
      rw [String.append_empty] at hslash
      rw [hbase, hslash]

/-- Seen from a base, a path that does not begin with a dot goes on with its own components. -/
theorem components_join {p : String} (base : String) (hp : isAbsolute p = false)
    (hdot : leadingDot p = []) : components (join base p) = components base ++ components p := by
  rw [components_eq, components_eq, components_eq, leadingDot_join hp fun _ => hdot,
    steps_join base hp, hdot, List.nil_append, ← List.map_append, List.append_assoc]

/-- A text behind a path stays behind it. -/
theorem join_append {p : String} (base suffix : String) (hp : p ≠ "") :
    join base p ++ suffix = join base (p ++ suffix) := by
  rw [join_eq, join_eq, isAbsolute_append hp]
  split
  · rfl
  · rw [String.append_assoc]

theorem asFolder_append (front : String) {p : String} (hp : p ≠ "") :
    asFolder (front ++ p) = front ++ asFolder p := by
  obtain ⟨c, hc⟩ := Option.isSome_iff_exists.1 (List.getLast?_isSome.2
    fun h : p.toList = [] => hp (String.toList_inj.1 h))
  have hlast : (front ++ p).toList.getLast? = some c := by
    rw [String.toList_append, List.getLast?_append, hc]
    rfl
  simp only [asFolder, hlast, hc]
  split
  · rfl
  · rw [String.append_assoc]

theorem asFolder_asFolder (base : String) : asFolder (asFolder base) = asFolder base := by
  obtain ⟨-, hfolder⟩ | ⟨-, front, hfolder, -⟩ := asFolder_cases base
  · rw [hfolder]
    rfl
  · rw [hfolder, asFolder_append front (by decide)]
    rfl

/-- Relative paths are put together in any order. -/
theorem join_join {p : String} (base folder : String) (hp : isAbsolute p = false) :
    join base (join folder p) = join (join base folder) p := by
  cases hfolder : isAbsolute folder with
  | true =>
    rw [join_of_isAbsolute base hfolder, join_of_isAbsolute base]
    rw [isAbsolute_join, hfolder, Bool.true_or]
  | false =>
    have hrelative : isAbsolute (join folder p) = false := by
      rw [isAbsolute_join, hfolder, hp, Bool.or_false]
    rw [join_of_relative base hrelative, join_of_relative _ hp, join_of_relative _ hp,
      join_of_relative base hfolder]
    by_cases hempty : folder = ""
    · rw [hempty, String.append_empty, asFolder_asFolder]
      exact congrArg _ (String.empty_append ..)
    · rw [asFolder_append _ hempty, String.append_assoc]

/-! ## Going down -/

theorem isAbsolute_foldl_join (base : String) (ps : List String) :
    isAbsolute (ps.foldl join base) = (isAbsolute base || ps.any isAbsolute) := by
  induction ps generalizing base with
  | nil => rw [List.foldl_nil, List.any_nil, Bool.or_false]
  | cons p ps ih => rw [List.foldl_cons, ih, isAbsolute_join, List.any_cons, Bool.or_assoc]

theorem steps_foldl_join {ps : List String} (base : String)
    (hps : ∀ p ∈ ps, isAbsolute p = false) :
    steps (ps.foldl join base) = steps base ++ ps.flatMap steps := by
  induction ps generalizing base with
  | nil => rw [List.foldl_nil, List.flatMap_nil, List.append_nil]
  | cons p ps ih =>
    rw [List.foldl_cons, ih _ fun q hq => hps q (List.mem_cons_of_mem p hq),
      steps_join base (hps p List.mem_cons_self), List.flatMap_cons, List.append_assoc]

theorem join_ne_empty {base p : String} (h : base ≠ "" ∨ p ≠ "") : join base p ≠ "" := by
  intro hempty
  rw [join_eq] at hempty
  split at hempty
  · rename_i hp
    rw [hempty] at hp
    cases hp
  · obtain ⟨hbase, hfolder⟩ | ⟨-, front, hfolder, -⟩ := asFolder_cases base
    · rw [hfolder, String.empty_append] at hempty
      exact h.elim (fun hne => hne hbase) fun hne => hne hempty
    · have hlength := congrArg String.length hempty
      simp [hfolder] at hlength

theorem leadingDot_foldl_join {base : String} {ps : List String} (hbase : base ≠ "")
    (hps : ∀ p ∈ ps, isAbsolute p = false) :
    leadingDot (ps.foldl join base) = leadingDot base := by
  induction ps generalizing base with
  | nil => rfl
  | cons p ps ih =>
    rw [List.foldl_cons,
      ih (join_ne_empty (.inl hbase)) fun q hq => hps q (List.mem_cons_of_mem p hq),
      leadingDot_join (hps p List.mem_cons_self) fun h => absurd h hbase]

/-- What is found on the way down from a root. -/
def Below (root p : String) : Prop :=
  isAbsolute p = isAbsolute root
    ∧ ∃ rest, rest ≠ [] ∧ ".." ∉ rest ∧ components p = components root ++ rest

theorem below_join {p : String} (root : String) (hp : isAbsolute p = false)
    (hdot : leadingDot p = []) (hne : steps p ≠ []) (hup : ".." ∉ components p) :
    Below root (join root p) := by
  refine ⟨by rw [isAbsolute_join, hp, Bool.or_false], components p, ?_, hup, ?_⟩
  · rw [components_eq, hdot]
    simpa using hne
  · exact components_join root hp hdot

/-- A path below the root that says nothing is relative and does not lead upwards. -/
theorem Below.of_empty {p : String} (h : Below "" p) :
    isAbsolute p = false ∧ ".." ∉ components p := by
  obtain ⟨habsolute, rest, -, hup, hcomponents⟩ := h
  have hempty : components "" = [] := rfl
  rw [hempty, List.nil_append] at hcomponents
  exact ⟨habsolute, hcomponents ▸ hup⟩

/-! ## Names -/

/-- Whether a text is the name of something in a directory. -/
structure IsName (name : String) : Prop where
  slash : '/' ∉ name.toList
  step : isStep name.toList = true
  ne_up : name ≠ ".."

theorem isAbsolute_of_slash_not_mem {p : String} (h : '/' ∉ p.toList) : isAbsolute p = false := by
  cases hp : isAbsolute p with
  | false => rfl
  | true =>
    obtain ⟨cs, hcs⟩ := List.head?_eq_some_iff.1 (beq_iff_eq.1 hp)
    exact absurd (hcs ▸ List.mem_cons_self) h

namespace IsName

variable {name : String}

theorem isAbsolute (h : IsName name) : isAbsolute name = false :=
  isAbsolute_of_slash_not_mem h.slash

theorem steps (h : IsName name) : steps name = [name.toList] := by
  rw [Path.steps, segments_of_not_mem h.slash, List.filter_cons_of_pos h.step, List.filter_nil]

/-- What has a name in a folder is absolute if the folder is. -/
theorem isAbsolute_join (h : IsName name) (folder : String) :
    Path.isAbsolute (join folder name) = Path.isAbsolute folder := by
  rw [Path.isAbsolute_join, h.isAbsolute, Bool.or_false]

theorem isEmpty_join (h : IsName name) (folder : String) : (join folder name).isEmpty = false := by
  have hne : name ≠ "" := fun heq => absurd h.step (by rw [heq]; decide)
  simpa using join_ne_empty (.inr hne)

/-- The names in a folder stand behind the same segments. -/
theorem segments_join (folder : String) :
    ∃ ss, ∀ name, IsName name → segments (join folder name) = ss ++ [name.toList] := by
  obtain ⟨-, hfolder⟩ | ⟨-, front, hfolder, -⟩ := asFolder_cases folder
  · refine ⟨[], fun name h => ?_⟩
    rw [join_of_relative folder h.isAbsolute, hfolder, String.empty_append,
      segments_of_not_mem h.slash, List.nil_append]
  · refine ⟨segments front, fun name h => ?_⟩
    rw [join_of_relative folder h.isAbsolute, hfolder, segments_append_slash,
      segments_of_not_mem h.slash]

theorem fileName?_join (h : IsName name) (folder : String) :
    fileName? (join folder name) = some name := by
  have hlast : (components (join folder name)).getLast? = some name := by
    rw [components_eq, steps_join folder h.isAbsolute, h.steps, ← List.append_assoc,
      List.map_append, List.map_singleton, List.getLast?_append, String.ofList_toList]
    rfl
  have hdot : name ≠ "." := by
    rintro rfl
    exact absurd h.step (by decide)
  rw [fileName?, hlast]
  split
  · exact absurd (Option.some.inj ‹_›) hdot
  · exact absurd (Option.some.inj ‹_›) h.ne_up
  · rfl

end IsName

/-! ## Parents -/

/-- The name of a file is the last segment that counts, and no dot. -/
theorem places_of_fileName? {p name : String} (h : fileName? p = some name) :
    ∃ front i, places p = front ++ [(name.toList, i)] ∧ name ≠ "." ∧ name ≠ ".." := by
  unfold fileName? at h
  split at h
  · cases h
  · cases h
  · rename_i hdot hup
    rw [h] at hdot hup
    obtain ⟨front, hfront⟩ := List.getLast?_eq_some_iff.1 h
    rw [components, List.map_eq_append_iff] at hfront
    obtain ⟨before, last, hplaces, -, hlast⟩ := hfront
    obtain ⟨⟨s, i⟩, rfl, rfl⟩ := List.map_eq_singleton_iff.1 hlast
    exact ⟨before, i, by rw [hplaces, String.toList_ofList], by simpa using hdot,
      by simpa using hup⟩

theorem segments_ofSegments_front {p : String} {front back : List (List Char)} {s : List Char}
    (hp : segments p = front ++ s :: back) :
    segments (ofSegments (front ++ [s])) = front ++ [s] := by
  refine segments_ofSegments (by simp) fun t ht => slash_not_mem_of_mem_segments (p := p) ?_
  rw [hp, List.append_cons]
  exact List.mem_append_left _ ht

/-- The first segments of a path from the root make a path from the root, if one of them counts. -/
theorem isAbsolute_ofSegments {p : String} {front back : List (List Char)} {s : List Char}
    (hp : segments p = front ++ s :: back) (hs : s ≠ []) :
    isAbsolute (ofSegments (front ++ [s])) = isAbsolute p := by
  rw [Bool.eq_iff_iff, isAbsolute_iff, isAbsolute_iff, segments_ofSegments_front hp, hp]
  cases front with
  | nil => simp [hs]
  | cons t front => cases front <;> simp

/-- Behind the last place but one only the segment of the last place counts. -/
theorem segments_of_places {p : String} {before : List (List Char × Nat)} {t name : List Char}
    {i j : Nat} (h : places p = before ++ [(t, i), (name, j)]) :
    ∃ front back, segments p = front ++ t :: back ∧ i = front.length ∧ t ≠ []
      ∧ back.filter isStep = [name] := by
  rw [places, List.filter_eq_append_iff] at h
  obtain ⟨a, b, hab, -, hb⟩ := h
  obtain ⟨b₁, b₂, rfl, -, ht, hb₂⟩ := List.filter_eq_cons_iff.1 hb
  have hsplit : (segments p).zipIdx = (a ++ b₁ ++ [(t, i)]) ++ b₂ := by
    rw [hab]
    simp
  obtain ⟨l, back, hl, hfront, hback⟩ := List.zipIdx_eq_append_iff.1 hsplit
  rcases List.eq_nil_or_concat l with rfl | ⟨front, t', rfl⟩
  · simp at hfront
  · rw [List.concat_eq_append] at hl hfront hback
    rw [List.zipIdx_append, List.zipIdx_singleton, Nat.zero_add] at hfront
    obtain ⟨-, hlast⟩ := List.append_inj' hfront rfl
    obtain ⟨rfl, rfl⟩ : t = t' ∧ i = front.length := by simpa using hlast
    refine ⟨front, back, by simpa using hl, rfl, ?_, ?_⟩
    · rintro rfl
      simp at ht
    · have hmap := map_filter_zipIdx back (by simp : 0 + (front ++ [t]).length ≠ 0)
      rw [← hback, hb₂] at hmap
      exact hmap.symm

/-- The parent of a named file has all its steps but the last. -/
theorem parent?_of_fileName? {p name : String} (h : fileName? p = some name) :
    ∃ parent, parent? p = some parent ∧ isAbsolute parent = isAbsolute p
      ∧ steps p = steps parent ++ [name.toList] := by
  obtain ⟨front, j, hplaces, hdot, -⟩ := places_of_fileName? h
  rw [parent?, hplaces, List.reverse_append, List.reverse_singleton, List.singleton_append]
  rcases List.eq_nil_or_concat front with rfl | ⟨before, ⟨t, i⟩, rfl⟩
  · -- a single name: it is no leading dot, so it is the only step
    have hmap := map_places p
    rw [hplaces, List.nil_append, List.map_singleton, leadingDot] at hmap
    have hsteps : steps p = [name.toList] := by
      split at hmap
      · rw [List.singleton_append, List.cons.injEq] at hmap
        exact absurd (String.toList_inj.1 (hmap.1.trans (by rfl : ['.'] = ".".toList))) hdot
      · exact hmap.symm
    refine ⟨_, rfl, ?_, ?_⟩
    · cases isAbsolute p <;> rfl
    · rw [hsteps]
      cases isAbsolute p <;> rfl
  · rw [List.concat_eq_append, List.append_assoc, List.singleton_append] at hplaces
    obtain ⟨front, back, hsegments, rfl, hcounts, hback⟩ := segments_of_places hplaces
    have hparent := segments_ofSegments_front hsegments
    refine ⟨ofSegments (front ++ [t]), ?_, isAbsolute_ofSegments hsegments hcounts, ?_⟩
    · rw [List.concat_eq_append, List.reverse_append, List.reverse_singleton,
        List.singleton_append]
      dsimp only
      rw [hsegments, List.append_cons, List.take_left' (by simp)]
    · rw [steps, hsegments, List.append_cons, List.filter_append, hback, steps, hparent]

/-- A parent has the first of the steps. -/
theorem parent?_eq_some {p parent : String} (h : parent? p = some parent) :
    isAbsolute parent = isAbsolute p ∧ steps parent <+: steps p := by
  unfold parent? at h
  rcases List.eq_nil_or_concat (places p) with hplaces | ⟨front, ⟨name, j⟩, hplaces⟩
  · rw [hplaces] at h
    cases h
  rw [List.concat_eq_append] at hplaces
  rcases List.eq_nil_or_concat front with rfl | ⟨before, ⟨t, i⟩, rfl⟩
  · rw [hplaces] at h
    obtain rfl := Option.some.inj h
    cases isAbsolute p <;> exact ⟨rfl, List.nil_prefix⟩
  · rw [List.concat_eq_append, List.append_assoc, List.singleton_append] at hplaces
    obtain ⟨front, back, hsegments, rfl, hcounts, -⟩ := segments_of_places hplaces
    obtain rfl : ofSegments (front ++ [t]) = parent := by
      rw [hplaces, List.reverse_append, hsegments, List.append_cons] at h
      refine Eq.trans (congrArg ofSegments ?_) (Option.some.inj h)
      exact (List.take_left' (by simp)).symm
    have hprefix : front ++ [t] <+: segments p := ⟨back, by simp [hsegments]⟩
    refine ⟨isAbsolute_ofSegments hsegments hcounts, ?_⟩
    rw [steps, segments_ofSegments_front hsegments]
    exact hprefix.filter isStep

theorem isName_of_fileName? {p name : String} (h : fileName? p = some name) : IsName name := by
  obtain ⟨front, i, hplaces, hdot, hup⟩ := places_of_fileName? h
  have hmem : (name.toList, i) ∈ places p := by simp [hplaces]
  obtain ⟨hsegment, hcounts⟩ := List.mem_filter.1 hmem
  have hslash : name.toList ∈ segments p := by
    obtain ⟨-, hi, hget⟩ := List.mem_zipIdx hsegment
    exact hget ▸ List.getElem_mem _
  refine ⟨slash_not_mem_of_mem_segments hslash, ?_, hup⟩
  have hne : name.toList ≠ [] := by
    rintro heq
    simp [heq] at hcounts
  have hne' : name.toList ≠ ['.'] := fun heq => hdot (String.toList_inj.1 heq)
  simp [isStep, hne, hne']

/-! ## Slashes at the end -/

/-- Slashes at the end of a path say nothing. -/
theorem steps_trimEndWith (p : String) :
    steps (String.ofList (Text.trimEndWith (· == '/') p.toList)) = steps p := by
  have hslashes (cs slashes : List Char) (h : ∀ c ∈ slashes, c = '/') :
      steps (String.ofList (cs ++ slashes)) = steps (String.ofList cs) := by
    induction slashes generalizing cs with
    | nil => rw [List.append_nil]
    | cons c slashes ih =>
      obtain ⟨rfl, hrest⟩ := List.forall_mem_cons.1 h
      have hslash := segments_append_slash (String.ofList cs) ""
      rw [String.append_empty] at hslash
      have hone : steps (String.ofList (cs ++ ['/'])) = steps (String.ofList cs) := by
        rw [String.ofList_append, steps, steps]
        refine (congrArg _ hslash).trans ?_
        rw [List.filter_append]
        exact List.append_nil _
      rw [List.append_cons, ih _ hrest, hone]
  obtain ⟨slashes, hsplit, hall⟩ := Text.trimEndWith_append (· == '/') p.toList
  rw [← hslashes _ slashes fun c hc => beq_iff_eq.1 (hall c hc), ← hsplit, String.ofList_toList]

theorem isAbsolute_trimEndWith {p : String}
    (hne : String.ofList (Text.trimEndWith (· == '/') p.toList) ≠ "") :
    isAbsolute (String.ofList (Text.trimEndWith (· == '/') p.toList)) = isAbsolute p := by
  obtain ⟨slashes, hsplit, -⟩ := Text.trimEndWith_append (· == '/') p.toList
  have happend : p
      = String.ofList (Text.trimEndWith (· == '/') p.toList) ++ String.ofList slashes := by
    rw [← String.ofList_append, ← hsplit, String.ofList_toList]
  exact (isAbsolute_append hne _).symm.trans (congrArg isAbsolute happend.symm)

end Jarwright.Path
