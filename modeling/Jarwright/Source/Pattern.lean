import Jarwright.Source.Token

/-!
# Patterns of tokens

A pattern describes sequences of tokens. Alternatives are ordered: the first that matches is taken,
and a repetition takes as many rounds as it can. What a pattern matches is a forest in which the
tokens are leaves and the labelled parts are branches.

* `Pattern` is the language of patterns over the names of a grammar's rules;
* `Pattern.match?` matches a pattern at the start of a token list, with a bound on the depth;
* `Pattern.parse?` matches a whole list.
-/

namespace Jarwright.Source

/-- A forest over labels: a token, or a labelled part with what it is made of. -/
inductive Node (label : Type) where
  | leaf (t : Token)
  | branch (l : label) (children : List (Node label))
  deriving Repr, Inhabited

/-- Patterns over the rules and labels of a grammar. -/
inductive Pattern (rule label : Type) where
  | empty
  /-- The word or symbol of this spelling. -/
  | token (text : String)
  /-- The word or symbol of this spelling directly behind the token before it. -/
  | glued (text : String)
  /-- Any word but the reserved ones. -/
  | name (reserved : List String)
  /-- Any token of a class. -/
  | kind (k : TokenKind)
  /-- What a rule of the grammar describes. -/
  | ref (r : rule)
  | seq (p q : Pattern rule label)
  | alt (p q : Pattern rule label)
  /-- Any number of rounds, each of which takes a token at least. -/
  | many (p : Pattern rule label)
  /-- Nothing, where `p` does not match. -/
  | unless (p : Pattern rule label)
  /-- All that stands in front of a token of this spelling, matched by `p`, and `q` from the token
  on. Of several such tokens outside brackets it is the first with which both match. -/
  | before (text : String) (p q : Pattern rule label)
  | tag (l : label) (p : Pattern rule label)
  deriving Repr, Inhabited

namespace Pattern

variable {rule label : Type}

instance : Coe String (Pattern rule label) := ⟨.token⟩

/-- One pattern after the other. -/
def all : List (Pattern rule label) → Pattern rule label
  | [] => .empty
  | [p] => p
  | p :: ps => .seq p (all ps)

/-- The first pattern that matches. -/
def any : List (Pattern rule label) → Pattern rule label
  | [] => .unless .empty
  | [p] => p
  | p :: ps => .alt p (any ps)

/-- A pattern or nothing. -/
def opt (p : Pattern rule label) : Pattern rule label := .alt p .empty

/-- One round or more. -/
def many1 (p : Pattern rule label) : Pattern rule label := .seq p (.many p)

/-- Nothing, where a pattern matches. -/
def ahead (p : Pattern rule label) : Pattern rule label := .unless (.unless p)

/-- One or more with a separator between them. -/
def sepBy1 (sep p : Pattern rule label) : Pattern rule label := .seq p (.many (.seq sep p))

/-- Any number with a separator between them. -/
def sepBy (sep p : Pattern rule label) : Pattern rule label := opt (sepBy1 sep p)

/-- Repeats a step as often as it works, at most `n` times; `done` holds the forests of the rounds
before, latest first. -/
def repeatMatch (step : List Token → Option (List (Node label) × List Token))
    (done : List (List (Node label))) :
    Nat → List Token → List (Node label) × List Token
  | 0, ts => (done.reverse.flatten, ts)
  | n + 1, ts =>
    match step ts with
    | some (found, rest) => repeatMatch step (found :: done) n rest
    | none => (done.reverse.flatten, ts)

/-- Whether a token opens brackets. -/
def opensBrackets (t : Token) : Bool := t.text == "(" || t.text == "[" || t.text == "\x7b"

/-- Whether a token closes brackets. -/
def closesBrackets (t : Token) : Bool := t.text == ")" || t.text == "]" || t.text == "\x7d"

/-- Cuts a list in front of a token with the given test, so that `whole` matches all that is before
it and `rest` can go on from it. The token stands in no brackets but those around the list. `passed`
holds the tokens before, latest first, and `depth` counts the brackets they leave open. -/
def cutMatch (test : Token → Bool)
    (whole rest : List Token → Option (List (Node label) × List Token)) (passed : List Token)
    (depth : Nat) : List Token → Option (List (Node label) × List Token)
  | [] => none
  | t :: ts =>
    let further (d : Nat) := cutMatch test whole rest (t :: passed) d ts
    if opensBrackets t then further (depth + 1)
    else
      match depth, closesBrackets t with
      | 0, true => none
      | d + 1, true => further d
      | d + 1, false => further (d + 1)
      | 0, false =>
        let here := if test t then
            match whole passed.reverse with
            | some (xs, []) => (rest (t :: ts)).map fun (ys, left) => (xs ++ ys, left)
            | _ => none
          else none
        here.orElse fun _ => further 0

/-- A token of the given test at the start of a list. -/
def first? (test : Token → Bool) : List Token → Option (List (Node label) × List Token)
  | t :: ts => if test t then some ([.leaf t], ts) else none
  | [] => none

/-- Matches a pattern at the start of a token list. The number bounds the depth to which patterns
are opened. -/
def match? (grammar : rule → Pattern rule label) :
    Nat → Pattern rule label → List Token → Option (List (Node label) × List Token)
  | 0, _, _ => none
  | n + 1, p, ts =>
    match p with
    | .empty => some ([], ts)
    | .token text => first? (fun t => t.text == text) ts
    | .glued text => first? (fun t => t.glued && t.text == text) ts
    | .name reserved => first? (fun t => t.kind == .word && !reserved.contains t.text) ts
    | .kind k => first? (fun t => t.kind == k) ts
    | .ref r => match? grammar n (grammar r) ts
    | .seq p q => do
      let (xs, ts) ← match? grammar n p ts
      let (ys, ts) ← match? grammar n q ts
      return (xs ++ ys, ts)
    | .alt p q =>
      match match? grammar n p ts with
      | some found => some found
      | none => match? grammar n q ts
    | .many p => some (repeatMatch (match? grammar n p) [] n ts)
    | .unless p =>
      match match? grammar n p ts with
      | some _ => none
      | none => some ([], ts)
    | .before text p q =>
      cutMatch (fun t => t.text == text) (match? grammar n p) (match? grammar n q) [] 0 ts
    | .tag l p => do
      let (xs, ts) ← match? grammar n p ts
      return ([.branch l xs], ts)

/-- The depth allowed per token: the rules of a grammar that take no token between them, and the
patterns on the way, have to fit in it. -/
def depthPerToken : Nat := 256

/-- The forest of a whole token list. -/
def parse? (grammar : rule → Pattern rule label) (p : Pattern rule label) (ts : List Token) :
    Option (List (Node label)) :=
  match match? grammar (depthPerToken * (ts.length + 1)) p ts with
  | some (found, []) => some found
  | _ => none

end Pattern

end Jarwright.Source
