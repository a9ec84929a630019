import Jarwright.ClassFile.Signature

/-!
# Signatures under the identity

A step of the reader takes off the input exactly the characters that its tokens stand for when no
class is renamed: `eq_append_of_step` is that invariant for one step, one case for each goal, and
`plain_scanFrom` the one for a whole scan. So the renaming that renames nothing returns every
signature that it accepts. Since a scan asks no renaming, that is what any renaming accepts
(`accepts_under_any`).
-/

namespace Jarwright.ClassFile.Signature

/-- A class inside another one is called by what its name adds to the name of the other. -/
theorem innerName_append (outer simple : List Char) :
    innerName outer (outer ++ '$' :: simple) = simple := by
  have h := Text.dropFront?_append (outer ++ ['$']) simple
  rw [List.append_assoc, List.singleton_append] at h
  rw [innerName, h]

/-- The characters that tokens stand for when no class is renamed. -/
def plain (tokens : List Token) : List Char := tokens.flatMap (Token.render id)

theorem plain_append (ts us : List Token) : plain (ts ++ us) = plain ts ++ plain us :=
  List.flatMap_append

@[simp] theorem plain_nil : plain [] = [] := rfl

@[simp] theorem plain_cons_text (cs : List Char) (ts : List Token) :
    plain (.text cs :: ts) = cs ++ plain ts := rfl

@[simp] theorem plain_cons_name (cs : List Char) (ts : List Token) :
    plain (.name cs :: ts) = cs ++ plain ts := by
  simp [plain, Token.render]

/-- A class inside another one keeps its simple name when neither is renamed. -/
@[simp] theorem plain_cons_inner (outer simple : List Char) (ts : List Token) :
    plain (.inner outer simple :: ts) = simple ++ plain ts := by
  simp [plain, Token.render, innerName_append]

/-! ## One step -/

theorem eq_append_of_nameUntil {stop : Char → Bool} {cs name rest : List Char}
    (h : nameUntil stop cs = some (name, rest)) :
    cs = name ++ rest ∧ ∃ c more, rest = c :: more ∧ stop c = true := by
  simp only [nameUntil] at h
  split at h
  · cases h
  · rename_i hne
    simp only [Bool.or_eq_true, List.isEmpty_iff, not_or] at hne
    obtain ⟨rfl, rfl⟩ := Prod.mk.injEq .. ▸ Option.some.injEq .. ▸ h
    refine ⟨(List.takeWhile_append_dropWhile).symm, ?_⟩
    obtain ⟨c, more, hrest⟩ := List.exists_cons_of_ne_nil hne.2
    refine ⟨c, more, hrest, ?_⟩
    have hhead := List.head?_dropWhile_not (fun c => !stop c) cs
    rw [hrest] at hhead
    simpa using hhead

theorem eq_append_of_classType {cs : List Char} {s : Step} (h : classType cs = some s) :
    cs = plain s.tokens ++ s.rest := by
  unfold classType at h
  split at h
  · obtain ⟨⟨n, rest⟩, hn, rfl⟩ := Option.map_eq_some_iff.1 h
    obtain ⟨rfl, -⟩ := eq_append_of_nameUntil hn
    simp
  · cases h

theorem eq_append_of_referenceType {cs : List Char} {s : Step} (h : referenceType cs = some s) :
    cs = plain s.tokens ++ s.rest := by
  unfold referenceType at h
  split at h
  · obtain ⟨⟨n, rest⟩, hn, rfl⟩ := Option.map_eq_some_iff.1 h
    obtain ⟨rfl, c, more, rfl, hc⟩ := eq_append_of_nameUntil hn
    obtain rfl : c = ';' := by simpa using hc
    simp
  · cases h
    simp
  · exact eq_append_of_classType h

theorem eq_append_of_anyType {cs : List Char} {s : Step} (h : anyType cs = some s) :
    cs = plain s.tokens ++ s.rest := by
  unfold anyType at h
  split at h
  · cases h
  · split at h
    · cases h
      simp
    · exact eq_append_of_referenceType h

/-- A step takes the characters that its tokens stand for. -/
theorem eq_append_of_step {g : Goal} {cs : List Char} {s : Step} (h : step g cs = some s) :
    cs = plain s.tokens ++ s.rest := by
  unfold step at h
  split at h
  all_goals first
    | (simp only [Option.some.injEq] at h; subst h; simp [copy])
    | (exact eq_append_of_anyType h)
    | (exact eq_append_of_referenceType h)
    | cases h
    | skip
  · obtain ⟨⟨n, rest⟩, hn, rfl⟩ := Option.map_eq_some_iff.1 h
    obtain ⟨rfl, c, more, rfl, hc⟩ := eq_append_of_nameUntil hn
    obtain rfl : c = ':' := by simpa using hc
    have hdrop : List.drop 1 (':' :: more) = more := rfl
    dsimp only
    split <;> rename_i heq <;> rw [hdrop] at heq <;> simp [heq]
  · obtain ⟨⟨n, rest⟩, hn, rfl⟩ := Option.map_eq_some_iff.1 h
    obtain ⟨rfl, -⟩ := eq_append_of_nameUntil hn
    simp
  · obtain ⟨t, ht, rfl⟩ := Option.map_eq_some_iff.1 h
    exact (eq_append_of_referenceType ht :)
  · obtain ⟨t, ht, rfl⟩ := Option.map_eq_some_iff.1 h
    exact (eq_append_of_classType ht :)
  · obtain ⟨t, ht, rfl⟩ := Option.map_eq_some_iff.1 h
    exact (eq_append_of_anyType ht :)

/-! ## A whole scan -/

theorem scanFrom_of_step {g : Goal} {cs : List Char} {s : Step} (h : step g cs = some s)
    (done : List Token) (goals : List Goal) :
    scanFrom done (g :: goals) cs
      = scanFrom (s.tokens.reverse ++ done) (s.goals ++ goals) s.rest := by
  rw [scanFrom, h]

/-- The tokens of a scan that reaches its goals stand for what was read before and what was
scanned. -/
theorem plain_scanFrom {done : List Token} {goals : List Goal} {cs : List Char}
    (h : (scanFrom done goals cs).complete = true) :
    plain (scanFrom done goals cs).tokens = plain done.reverse ++ cs := by
  induction done, goals, cs using scanFrom.induct with
  | case1 done cs =>
    rw [scanFrom] at h ⊢
    obtain rfl : cs = [] := by simpa using h
    simp
  | case2 done cs g more hs =>
    rw [scanFrom, hs] at h
    cases h
  | case3 done cs g more s hs ih =>
    rw [scanFrom_of_step hs] at h ⊢
    have hcs := eq_append_of_step hs
    rw [ih h, List.reverse_append, List.reverse_reverse, plain_append, List.append_assoc, ← hcs]

/-- Renaming nothing returns a signature that is accepted. -/
theorem eq_of_map_id {site : Site} {s s' : String} (h : map site id s = .ok s') : s' = s := by
  unfold map at h
  dsimp only at h
  split at h
  · rename_i hcomplete
    obtain rfl := Except.ok.inj h
    have hplain := plain_scanFrom hcomplete
    rw [List.reverse_nil, plain_nil, List.nil_append] at hplain
    exact (congrArg String.ofList hplain).trans String.ofList_toList
  · cases h

/-! ## What is accepted -/

/-- A signature is accepted if its scan is complete. -/
theorem exists_map_eq_ok_iff {site : Site} {f : String → String} {s : String} :
    (∃ t, map site f s = .ok t) ↔ (scan site s.toList).complete = true := by
  constructor
  · rintro ⟨t, h⟩
    unfold map at h
    dsimp only at h
    split at h
    · assumption
    · cases h
  · intro hcomplete
    exact ⟨_, if_pos hcomplete⟩

/-- Every renaming accepts the same strings, and refuses the others in the same way; what is
accepted stays as it is when nothing is renamed. -/
theorem accepts_under_any (site : Site) (s : String) (f g : String → String) :
    ((∃ t, map site f s = .ok t) ↔ ∃ t, map site g s = .ok t)
      ∧ (¬ (∃ t, map site f s = .ok t) → map site f s = .error (.badSignature s))
      ∧ ((∃ t, map site f s = .ok t) → map site id s = .ok s) := by
  refine ⟨exists_map_eq_ok_iff.trans exists_map_eq_ok_iff.symm, fun h => ?_, fun h => ?_⟩
  · exact if_neg (mt exists_map_eq_ok_iff.2 h)
  · obtain ⟨t, ht⟩ := exists_map_eq_ok_iff.2 (exists_map_eq_ok_iff.1 h)
    rw [ht, eq_of_map_id ht]

theorem scan_inner : scan .fieldSite ['L', 'a', '.', 'b', ';']
    = ⟨[.text ['L'], .name ['a'], .text ['.'], .inner ['a'] ['b'], .text [';']], true⟩ := by
  have houter : step .reference ['L', 'a', '.', 'b', ';']
    = some ⟨[.text ['L'], .name ['a']], [.afterName ['a']], ['.', 'b', ';']⟩ := rfl
  have hnone : step (.afterName ['a']) ['.', 'b', ';']
    = some ⟨[], [.suffixes ['a']], ['.', 'b', ';']⟩ := rfl
  have hinner : step (.suffixes ['a']) ['.', 'b', ';']
    = some ⟨[.text ['.'], .inner ['a'] ['b']], [.afterName ['a', '$', 'b']], [';']⟩ := rfl
  have hnone' : step (.afterName ['a', '$', 'b']) [';']
    = some ⟨[], [.suffixes ['a', '$', 'b']], [';']⟩ := rfl
  have hclose : step (.suffixes ['a', '$', 'b']) [';'] = some (copy ';' [] []) := rfl
  simp [scan, Site.goals, scanFrom_of_step houter, scanFrom_of_step hnone, scanFrom_of_step hinner,
    scanFrom_of_step hnone', scanFrom_of_step hclose, copy, scanFrom]

theorem accepts_under_any_inner :
    map .fieldSite (fun _ => "x") "La.b;" = .ok "Lx.x;"
      ∧ map .fieldSite id "La.b;" = .ok "La.b;" := by
  have hmap : map .fieldSite (fun _ => "x") "La.b;" = .ok "Lx.x;" := by
    rw [map, show "La.b;".toList = ['L', 'a', '.', 'b', ';'] from rfl, scan_inner]
    rfl
  exact ⟨hmap, (accepts_under_any .fieldSite "La.b;" (fun _ => "x") id).2.2 ⟨_, hmap⟩⟩

end Jarwright.ClassFile.Signature
