import Jarwright.Source.Declaration

/-!
# What patterns match

A forest that a pattern matches is made of the tokens it takes, in their order. What stands in its
branches follows from the patterns of the grammar: a type has a word and its name behind its
modifiers, and a field or a method says more than its modifiers.

* `Formed` says of a forest that all its branches have the shapes of their labels;
* `wellTagged` checks a pattern for it, and every rule of the grammar passes the check
  (`grammar_wellTagged`);
* `Sound` is what is proved of a matcher: one lemma for each form of patterns, and `match?_sound`
  for matching to any depth.
-/

namespace Jarwright.Source

open Rule (P)

/-! ## Shapes of forests -/

theorem tokensOf_append (xs ys : List (Node Part)) :
    tokensOf (xs ++ ys) = tokensOf xs ++ tokensOf ys := by
  match xs with
  | [] => simp [tokensOf]
  | .leaf t :: xs => simp [tokensOf, tokensOf_append xs ys]
  | .branch l cs :: xs => simp [tokensOf, tokensOf_append xs ys]

/-- Something stands in the forest besides modifiers. -/
def HasContent (ns : List (Node Part)) : Prop :=
  ∃ n ∈ ns, (∀ ms, n ≠ .branch .modifiers ms) ∧ tokensOf [n] ≠ []

/-- A type: its modifiers if it has any, the word for its kind, its name, and the rest. -/
def HeadsType (ns : List (Node Part)) : Prop :=
  ∃ front word name behind, ns = front ++ .leaf word :: .branch .name [.leaf name] :: behind
    ∧ (front = [] ∨ ∃ ms, front = [.branch .modifiers ms])

/-- What stands in a branch. -/
def Shaped : Part → List (Node Part) → Prop
  | .type _, ns => HeadsType ns
  | .modifiers, ns | .field, ns | .method, ns | .constructor, ns => HasContent ns
  | _, _ => True

/-- All branches have the shapes of their labels. -/
def Formed : List (Node Part) → Prop
  | [] => True
  | .leaf _ :: ns => Formed ns
  | .branch l cs :: ns => Shaped l cs ∧ Formed cs ∧ Formed ns

theorem formed_append {xs ys : List (Node Part)} : Formed (xs ++ ys) ↔ Formed xs ∧ Formed ys := by
  match xs with
  | [] => simp [Formed]
  | .leaf t :: xs => simpa [Formed] using formed_append
  | .branch l cs :: xs => simp [Formed, formed_append, and_assoc]

theorem HasContent.left {xs : List (Node Part)} (h : HasContent xs) (ys : List (Node Part)) :
    HasContent (xs ++ ys) :=
  let ⟨n, hn, hcontent⟩ := h
  ⟨n, List.mem_append_left ys hn, hcontent⟩

theorem HasContent.right {ys : List (Node Part)} (h : HasContent ys) (xs : List (Node Part)) :
    HasContent (xs ++ ys) :=
  let ⟨n, hn, hcontent⟩ := h
  ⟨n, List.mem_append_right xs hn, hcontent⟩

theorem HasContent.tokensOf_ne_nil {ns : List (Node Part)} (h : HasContent ns) :
    tokensOf ns ≠ [] := by
  obtain ⟨n, hn, -, hcontent⟩ := h
  obtain ⟨before, behind, rfl⟩ := List.append_of_mem hn
  rw [List.append_cons, tokensOf_append, tokensOf_append]
  simp [hcontent]

theorem hasContent_leaf (t : Token) : HasContent [.leaf t] :=
  ⟨_, List.mem_singleton_self _, nofun, by simp [tokensOf]⟩

/-! ## Comparing forests -/

mutual

/-- Nodes are compared part by part. -/
def Node.same : Node Part → Node Part → Bool
  | .leaf t, .leaf t' => t == t'
  | .branch l cs, .branch l' cs' => l == l' && allSame cs cs'
  | _, _ => false

def allSame : List (Node Part) → List (Node Part) → Bool
  | [], [] => true
  | n :: ns, n' :: ns' => n.same n' && allSame ns ns'
  | _, _ => false

end

mutual

theorem Node.eq_of_same {n n' : Node Part} (h : n.same n' = true) : n = n' := by
  match n, n' with
  | .leaf t, .leaf t' => rw [beq_iff_eq.1 h]
  | .branch l cs, .branch l' cs' =>
    obtain ⟨hl, hcs⟩ := Bool.and_eq_true_iff.1 h
    rw [beq_iff_eq.1 hl, eq_of_allSame hcs]

theorem eq_of_allSame {ns ns' : List (Node Part)} (h : allSame ns ns' = true) : ns = ns' := by
  match ns, ns' with
  | [], [] => rfl
  | n :: ns, n' :: ns' =>
    obtain ⟨hn, hns⟩ := Bool.and_eq_true_iff.1 h
    rw [Node.eq_of_same hn, eq_of_allSame hns]

end

/-- A file is read once its forest is known. -/
theorem scan?_eq_of_same {source : List Char} (ns : List (Node Part))
    (h : ((tokenize? source).bind (Pattern.parse? Rule.grammar Rule.file)).any (allSame ns)
      = true) : Unit.scan? source = some (Unit.ofNodes source ⟨none, []⟩ ns) := by
  rw [Option.any_eq_true] at h
  obtain ⟨found, hfound, hsame⟩ := h
  obtain ⟨ts, hts, hparse⟩ := Option.bind_eq_some_iff.1 hfound
  rw [eq_of_allSame hsame, Unit.scan?, hts]
  simp only [Option.bind_eq_bind, Option.bind_some, hparse]
  rfl

/-! ## A check on patterns -/

/-- What the pattern matches has content. Of the rules, that of markers is enough to know. -/
def hasContent : P → Bool
  | .token _ | .glued _ | .name _ | .kind _ => true
  | .ref r => decide (r = .marker)
  | .seq p q => hasContent p || hasContent q
  | .alt p q => hasContent p && hasContent q
  | .tag l p => decide (l ≠ .modifiers) && hasContent p
  | _ => false

/-- The pattern is that of a type. -/
def headsType : P → Bool
  | .seq (.alt (.ref .modifiers) .empty) (.seq (.token _) (.seq (.tag .name (.name _)) _)) => true
  | _ => false

/-- What the pattern matches has the shape of a label. -/
def shaped : Part → P → Bool
  | .type _, p => headsType p
  | .modifiers, p | .field, p | .method, p | .constructor, p => hasContent p
  | _, _ => true

/-- Every labelled part of the pattern has the shape of its label. -/
def wellTagged : P → Bool
  | .tag l p => shaped l p && wellTagged p
  | .seq p q | .alt p q | .before _ p q => wellTagged p && wellTagged q
  | .many p | .unless p => wellTagged p
  | _ => true

theorem grammar_wellTagged (r : Rule) : wellTagged (Rule.grammar r) = true := by
  cases r with
  | expression e | operand e | primary e | creation e => cases e <;> decide +kernel
  | after a e => cases a <;> cases e <;> decide +kernel
  | _ => decide +kernel

theorem file_wellTagged : wellTagged Rule.file = true := by decide +kernel

/-! ## Matching -/

/-- The forest is made of the tokens in front of the rest, and all its branches have their shapes. -/
structure Takes (ts : List Token) (nodes : List (Node Part)) (rest : List Token) : Prop where
  tokens : tokensOf nodes ++ rest = ts
  formed : Formed nodes

/-- Whatever the matcher finds, it takes. -/
def Sound (matcher : List Token → Option (List (Node Part) × List Token)) : Prop :=
  ∀ ts nodes rest, matcher ts = some (nodes, rest) → Takes ts nodes rest

theorem takes_nil (ts : List Token) : Takes ts [] ts :=
  ⟨by simp [tokensOf], by simp [Formed]⟩

theorem takes_leaf (t : Token) (ts : List Token) : Takes (t :: ts) [.leaf t] ts :=
  ⟨by simp [tokensOf], by simp [Formed]⟩

theorem Takes.append {ts middle rest : List Token} {xs ys : List (Node Part)}
    (hx : Takes ts xs middle) (hy : Takes middle ys rest) : Takes ts (xs ++ ys) rest where
  tokens := by rw [tokensOf_append, List.append_assoc, hy.tokens, hx.tokens]
  formed := formed_append.2 ⟨hx.formed, hy.formed⟩

theorem Takes.branch {ts rest : List Token} {xs : List (Node Part)} {l : Part}
    (h : Takes ts xs rest) (hshape : Shaped l xs) : Takes ts [.branch l xs] rest where
  tokens := by simpa [tokensOf] using h.tokens
  formed := by simpa [Formed] using ⟨hshape, h.formed⟩

namespace Pattern

theorem first?_eq_some {test : Token → Bool} {ts rest : List Token} {nodes : List (Node Part)}
    (h : first? test ts = some (nodes, rest)) : ∃ t, ts = t :: rest ∧ nodes = [.leaf t] := by
  cases ts with
  | nil => cases h
  | cons t ts =>
    rw [first?] at h
    split at h
    · cases h
      exact ⟨t, rfl, rfl⟩
    · cases h

theorem sound_first? (test : Token → Bool) : Sound (first? test) := by
  intro ts nodes rest h
  obtain ⟨t, rfl, rfl⟩ := first?_eq_some h
  exact takes_leaf t rest

/-- Each round takes more of what the rounds before have left. -/
theorem takes_repeatMatch {step : List Token → Option (List (Node Part) × List Token)}
    (hstep : Sound step) {done : List (List (Node Part))} {n : Nat}
    {all ts rest : List Token} {nodes : List (Node Part)}
    (hdone : Takes all done.reverse.flatten ts) (h : repeatMatch step done n ts = (nodes, rest)) :
    Takes all nodes rest := by
  induction n generalizing done ts with
  | zero =>
    cases h
    exact hdone
  | succ n ih =>
    rw [repeatMatch] at h
    split at h
    · rename_i found behind hfound
      refine ih ?_ h
      rw [List.reverse_cons, List.flatten_append, List.flatten_singleton]
      exact hdone.append (hstep _ _ _ hfound)
    · cases h
      exact hdone

/-- A cut leaves the tokens it has passed to one matcher and the others to the second one. -/
theorem takes_cutMatch {test : Token → Bool}
    {whole next : List Token → Option (List (Node Part) × List Token)} (hwhole : Sound whole)
    (hnext : Sound next) {passed ts left : List Token} {depth : Nat} {nodes : List (Node Part)}
    (h : cutMatch test whole next passed depth ts = some (nodes, left)) :
    Takes (passed.reverse ++ ts) nodes left := by
  induction ts generalizing passed depth with
  | nil => cases h
  | cons t ts ih =>
    have hfurther {d : Nat} (h : cutMatch test whole next (t :: passed) d ts = some (nodes, left)) :
        Takes (passed.reverse ++ t :: ts) nodes left := by
      have := ih h
      rwa [List.reverse_cons, List.append_assoc] at this
    unfold cutMatch at h
    dsimp only at h
    split at h
    · exact hfurther h
    · split at h
      · cases h
      · exact hfurther h
      · exact hfurther h
      · unfold Option.orElse at h
        split at h
        · rename_i found hhere
          cases h
          split at hhere
          · split at hhere
            · rename_i xs hpassed
              obtain ⟨⟨ys, behind⟩, hfound, heq⟩ := Option.map_eq_some_iff.1 hhere
              cases heq
              obtain ⟨htokens, hformed⟩ := hwhole _ _ _ hpassed
              have hys := hnext _ _ _ hfound
              rw [List.append_nil] at htokens
              exact ⟨by rw [tokensOf_append, List.append_assoc, hys.tokens, htokens],
                formed_append.2 ⟨hformed, hys.formed⟩⟩
            · cases hhere
          · cases hhere
        · exact hfurther h

section Forms

variable {grammar : Rule → P} {n : Nat} {p q : P} {ts rest : List Token}
  {nodes : List (Node Part)}

theorem match?_pos (h : match? grammar n p ts = some (nodes, rest)) : ∃ k, n = k + 1 := by
  cases n with
  | zero => cases h
  | succ k => exact ⟨k, rfl⟩

theorem match?_seq (h : match? grammar (n + 1) (.seq p q) ts = some (nodes, rest)) :
    ∃ xs middle ys, match? grammar n p ts = some (xs, middle)
      ∧ match? grammar n q middle = some (ys, rest) ∧ nodes = xs ++ ys := by
  obtain ⟨⟨xs, middle⟩, hx, h⟩ := Option.bind_eq_some_iff.1 h
  obtain ⟨⟨ys, behind⟩, hy, h⟩ := Option.bind_eq_some_iff.1 h
  cases h
  exact ⟨xs, middle, ys, hx, hy, rfl⟩

theorem match?_alt (h : match? grammar (n + 1) (.alt p q) ts = some (nodes, rest)) :
    match? grammar n p ts = some (nodes, rest) ∨ match? grammar n q ts = some (nodes, rest) := by
  rw [match?] at h
  split at h
  · rename_i found hfound
    exact .inl (hfound.trans h)
  · exact .inr h

theorem match?_tag {l : Part} (h : match? grammar (n + 1) (.tag l p) ts = some (nodes, rest)) :
    ∃ xs, match? grammar n p ts = some (xs, rest) ∧ nodes = [.branch l xs] := by
  obtain ⟨⟨xs, behind⟩, hx, h⟩ := Option.bind_eq_some_iff.1 h
  cases h
  exact ⟨xs, hx, rfl⟩

theorem match?_unless (h : match? grammar (n + 1) (.unless p) ts = some (nodes, rest)) :
    nodes = [] ∧ rest = ts := by
  rw [match?] at h
  split at h
  · cases h
  · cases h
    exact ⟨rfl, rfl⟩

end Forms

section Java

variable {n : Nat} {p : P} {ts rest : List Token} {nodes : List (Node Part)}

/-- What a pattern with content matches has content. -/
theorem hasContent_of_match? (hp : hasContent p = true)
    (h : match? Rule.grammar n p ts = some (nodes, rest)) : HasContent nodes := by
  induction n generalizing p ts rest nodes with
  | zero => cases h
  | succ n ih =>
    cases p with
    | token | glued | name | kind =>
      obtain ⟨t, -, rfl⟩ := first?_eq_some h
      exact hasContent_leaf t
    | ref r =>
      obtain rfl : r = .marker := of_decide_eq_true hp
      exact ih (p := Rule.grammar .marker) rfl h
    | seq p q =>
      obtain ⟨xs, middle, ys, hx, hy, rfl⟩ := match?_seq h
      rcases Bool.or_eq_true_iff.1 hp with hp | hp
      · exact (ih hp hx).left ys
      · exact (ih hp hy).right xs
    | alt p q =>
      obtain ⟨hp, hq⟩ := Bool.and_eq_true_iff.1 hp
      exact (match?_alt h).elim (ih hp) (ih hq)
    | tag l p =>
      obtain ⟨xs, hx, rfl⟩ := match?_tag h
      obtain ⟨hl, hp⟩ := Bool.and_eq_true_iff.1 hp
      refine ⟨_, List.mem_singleton_self _, fun ms heq => ?_, ?_⟩
      · cases heq
        exact of_decide_eq_true hl rfl
      · simpa [tokensOf] using (ih hp hx).tokensOf_ne_nil
    | _ => cases hp

theorem modifiers_of_match? (h : match? Rule.grammar n (.opt (.ref .modifiers)) ts
    = some (nodes, rest)) : nodes = [] ∨ ∃ ms, nodes = [.branch .modifiers ms] := by
  obtain ⟨n, rfl⟩ := match?_pos h
  rcases match?_alt h with h | h
  · obtain ⟨n, rfl⟩ := match?_pos h
    have h : match? Rule.grammar n (Rule.grammar .modifiers) ts = some (nodes, rest) := h
    obtain ⟨n, rfl⟩ := match?_pos h
    obtain ⟨ms, -, rfl⟩ := match?_tag h
    exact .inr ⟨ms, rfl⟩
  · obtain ⟨n, rfl⟩ := match?_pos h
    cases h
    exact .inl rfl

theorem leaf_of_token {text : String}
    (h : match? Rule.grammar n (.token text) ts = some (nodes, rest)) : ∃ t, nodes = [.leaf t] := by
  obtain ⟨n, rfl⟩ := match?_pos h
  obtain ⟨t, -, rfl⟩ := first?_eq_some h
  exact ⟨t, rfl⟩

theorem branch_of_name {reserved : List String}
    (h : match? Rule.grammar n (.tag .name (.name reserved)) ts = some (nodes, rest)) :
    ∃ t, nodes = [.branch .name [.leaf t]] := by
  obtain ⟨n, rfl⟩ := match?_pos h
  obtain ⟨xs, hx, rfl⟩ := match?_tag h
  obtain ⟨n, rfl⟩ := match?_pos hx
  obtain ⟨t, -, rfl⟩ := first?_eq_some hx
  exact ⟨t, rfl⟩

/-- A type is matched as its modifiers, a word, and its name. -/
theorem headsType_of_match? (hp : headsType p = true)
    (h : match? Rule.grammar n p ts = some (nodes, rest)) : HeadsType nodes := by
  unfold headsType at hp
  split at hp
  · obtain ⟨n, rfl⟩ := match?_pos h
    obtain ⟨front, _, _, hfront, hothers, rfl⟩ := match?_seq h
    obtain ⟨n, rfl⟩ := match?_pos hothers
    obtain ⟨xs, _, _, hword, hbehind, rfl⟩ := match?_seq hothers
    obtain ⟨n, rfl⟩ := match?_pos hbehind
    obtain ⟨ys, _, behind, hname, -, rfl⟩ := match?_seq hbehind
    obtain ⟨word, rfl⟩ := leaf_of_token hword
    obtain ⟨name, rfl⟩ := branch_of_name hname
    exact ⟨front, word, name, behind, rfl, modifiers_of_match? hfront⟩
  · cases hp

theorem shaped_of_match? {l : Part} (hp : shaped l p = true)
    (h : match? Rule.grammar n p ts = some (nodes, rest)) : Shaped l nodes := by
  cases l with
  | type kind => exact headsType_of_match? hp h
  | modifiers | field | method | constructor => exact hasContent_of_match? hp h
  | _ => trivial

/-- **A matched forest takes what it is made of**, and its branches have the shapes of their
labels: by induction on the depth, with a case for each form of patterns. -/
theorem sound_match? (hp : wellTagged p = true) : Sound (match? Rule.grammar n p) := by
  induction n generalizing p with
  | zero => exact nofun
  | succ n ih =>
    intro ts nodes rest h
    cases p with
    | empty =>
      cases h
      exact takes_nil ts
    | token | glued | name | kind => exact sound_first? _ _ _ _ h
    | ref r => exact ih (grammar_wellTagged r) _ _ _ h
    | seq p q =>
      obtain ⟨hp, hq⟩ := Bool.and_eq_true_iff.1 hp
      obtain ⟨xs, middle, ys, hx, hy, rfl⟩ := match?_seq h
      exact (ih hp _ _ _ hx).append (ih hq _ _ _ hy)
    | alt p q =>
      obtain ⟨hp, hq⟩ := Bool.and_eq_true_iff.1 hp
      exact (match?_alt h).elim (ih hp _ _ _) (ih hq _ _ _)
    | many p =>
      have hstart : Takes ts [].reverse.flatten ts := takes_nil ts
      exact takes_repeatMatch (ih (p := p) hp) hstart (Option.some.inj h)
    | «unless» p =>
      obtain ⟨rfl, rfl⟩ := match?_unless h
      exact takes_nil rest
    | before text p q =>
      obtain ⟨hp, hq⟩ := Bool.and_eq_true_iff.1 hp
      exact takes_cutMatch (ih hp) (ih hq) h
    | tag l p =>
      obtain ⟨hshape, hp⟩ := Bool.and_eq_true_iff.1 hp
      obtain ⟨xs, hx, rfl⟩ := match?_tag h
      exact (ih hp _ _ _ hx).branch (shaped_of_match? hshape hx)

/-- The forest of a file holds all its tokens. -/
theorem takes_parse? (h : parse? Rule.grammar Rule.file ts = some nodes) : Takes ts nodes [] := by
  rw [parse?] at h
  split at h
  · rename_i found hfound
    cases h
    exact sound_match? file_wellTagged _ _ _ hfound
  · cases h

end Java

end Pattern

end Jarwright.Source
