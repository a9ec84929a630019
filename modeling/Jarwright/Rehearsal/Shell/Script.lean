/-!
# Shell scripts

A script is read in two steps: words, redirections and separators first, commands then. A word is
made of pieces, since the values of parameters are not known before the script runs.

* `tokens?` cuts a text into tokens;
* `commands?` reads commands up to a keyword that ends them, and `scriptOf?` a whole script.
-/

namespace Jarwright.Rehearsal.Shell

/-- A part of a word. -/
inductive Piece where
  | plain (s : List Char)
  /-- The value of a parameter. Outside of quotes it falls apart at blanks. -/
  | parameter (name : List Char) (quoted : Bool)
  /-- The value of an arithmetic expression. -/
  | arithmetic (expression : List Char)
  deriving DecidableEq, Repr, Inhabited

/-- Where a stream goes. -/
inductive Sink where
  | stdout | stderr | nowhere
  deriving DecidableEq, Repr, Inhabited

/-- A token of a script. -/
inductive Token where
  /-- A word; a bare one can be a keyword. -/
  | word (pieces : List Piece) (bare : Bool)
  /-- Sends a stream, the second one or the first, to where another goes, or nowhere. -/
  | redirect (second : Bool) (target : Sink)
  | separator
  | conjunction
  | disjunction
  /-- Leaves the command before it to itself. -/
  | background
  | openParen
  | closeParen
  deriving DecidableEq, Repr, Inhabited

/-! ## Words -/

/-- Whether the name of a parameter may begin with a character. -/
def startsName (c : Char) : Bool := c.isAlpha || c == '_'

/-- Whether a character goes on with the name of a parameter. -/
def continuesName (c : Char) : Bool := startsName c || c.isDigit

/-- Whether a character is the name of a parameter by itself. -/
def isSpecial (c : Char) : Bool :=
  c.isDigit || c == '#' || c == '$' || c == '?' || c == '@' || c == '*' || c == '!'

/-- An expression up to the two parentheses that close it; `depth` counts those that are open. -/
def expression? (depth : Nat) : List Char → Option (List Char × List Char)
  | [] => none
  | '(' :: cs => (expression? (depth + 1) cs).map fun (e, rest) => ('(' :: e, rest)
  | ')' :: cs =>
    match depth, cs with
    | 0, ')' :: rest => some ([], rest)
    | 0, _ => none
    | d + 1, cs => (expression? d cs).map fun (e, rest) => (')' :: e, rest)
  | c :: cs => (expression? depth cs).map fun (e, rest) => (c :: e, rest)

/-- What a dollar sign in front of a text stands for, if it stands for anything. -/
def dollar? (quoted : Bool) (cs : List Char) : Option (Piece × List Char) :=
  match cs with
  | '(' :: '(' :: rest => (expression? 0 rest).map fun (e, rest) => (.arithmetic e, rest)
  | '\x7b' :: rest =>
    let name := rest.takeWhile (· != '\x7d')
    match rest.drop name.length with
    | [] => none
    | _ :: rest => some (.parameter name quoted, rest)
  | c :: rest =>
    if isSpecial c then some (.parameter [c] quoted, rest)
    else if startsName c then
      some (.parameter (cs.takeWhile continuesName) quoted, cs.dropWhile continuesName)
    else none
  | [] => none

/-- Reads the inside of double quotes; the number bounds its length. -/
def doubleQuoted? : Nat → List Char → Option (List Piece × List Char)
  | 0, _ => none
  | _, [] => none
  | _, '"' :: cs => some ([.plain []], cs)
  | n + 1, '\\' :: c :: cs =>
    let kept := if c = '"' ∨ c = '\\' ∨ c = '$' then [c] else if c = '\n' then [] else ['\\', c]
    (doubleQuoted? n cs).map fun (ps, rest) => (.plain kept :: ps, rest)
  | n + 1, c :: cs =>
    match if c = '$' then dollar? true cs else none with
    | some (piece, rest) => (doubleQuoted? n rest).map fun (ps, rest) => (piece :: ps, rest)
    | none => (doubleQuoted? n cs).map fun (ps, rest) => (.plain [c] :: ps, rest)

/-- Whether a character ends a word. -/
def endsWord (c : Char) : Bool :=
  c == ' ' || c == '\t' || c == '\n' || c == ';' || c == '&' || c == '|' || c == '>' || c == '('
    || c == ')'

/-- Reads a word; the number bounds its length. -/
def word? : Nat → List Char → Option (List Piece × Bool × List Char)
  | 0, _ => none
  | _, [] => some ([], true, [])
  | n + 1, c :: cs =>
    if endsWord c then some ([], true, c :: cs)
    else if c = '\'' then
      let inner := cs.takeWhile (· != '\'')
      match cs.drop inner.length with
      | [] => none
      | _ :: rest => (word? n rest).map fun (ps, _, r) => (.plain inner :: ps, false, r)
    else if c = '"' then do
      let (quoted, rest) ← doubleQuoted? n cs
      let (ps, _, r) ← word? n rest
      return (quoted ++ ps, false, r)
    else match if c = '$' then dollar? false cs else none with
      | some (piece, rest) => (word? n rest).map fun (ps, _, r) => (piece :: ps, false, r)
      | none =>
        match c, cs with
        | '\\', d :: rest => (word? n rest).map fun (ps, _, r) => (.plain [d] :: ps, false, r)
        | _, _ => (word? n cs).map fun (ps, bare, r) => (.plain [c] :: ps, bare, r)

/-- The text of pieces that are written as they are. -/
def plainText (pieces : List Piece) : List Char :=
  pieces.flatMap fun
    | .plain s => s
    | .parameter name _ => '$' :: name
    | .arithmetic e => '$' :: e

/-- The name that a word assigns to, and the pieces of the value. -/
def assignment? (pieces : List Piece) : Option (List Char × List Piece) :=
  let name := pieces.takeWhile fun
    | .plain [c] => continuesName c
    | _ => false
  match plainText name, pieces.drop name.length with
  | c :: cs, .plain ['='] :: value => if startsName c then some (c :: cs, value) else none
  | _, _ => none

/-! ## Tokens -/

/-- Splits a script into tokens; the number bounds how many. -/
def tokens? : Nat → List Char → Option (List Token)
  | 0, _ => none
  | _, [] => some []
  | n + 1, cs =>
    let target (second : Bool) (rest : List Char) : Option (Token × List Char) := do
      let rest := rest.dropWhile (· == ' ')
      let (_, _, rest) ← word? (rest.length + 1) rest
      return (.redirect second .nowhere, rest)
    match cs with
    | ' ' :: rest | '\t' :: rest => tokens? n rest
    | ';' :: rest | '\n' :: rest => (tokens? n rest).map (.separator :: ·)
    | '#' :: rest => tokens? n (rest.dropWhile (· != '\n'))
    | '&' :: '&' :: rest => (tokens? n rest).map (.conjunction :: ·)
    | '|' :: '|' :: rest => (tokens? n rest).map (.disjunction :: ·)
    | '&' :: rest => (tokens? n rest).map (.background :: ·)
    | '(' :: rest => (tokens? n rest).map (.openParen :: ·)
    | ')' :: rest => (tokens? n rest).map (.closeParen :: ·)
    | '>' :: '&' :: '2' :: rest => (tokens? n rest).map (.redirect false .stderr :: ·)
    | '1' :: '>' :: '&' :: '2' :: rest => (tokens? n rest).map (.redirect false .stderr :: ·)
    | '2' :: '>' :: '&' :: '1' :: rest => (tokens? n rest).map (.redirect true .stdout :: ·)
    | '2' :: '>' :: rest => do
      let (t, rest) ← target true rest
      return t :: (← tokens? n rest)
    | '>' :: rest => do
      let (t, rest) ← target false rest
      return t :: (← tokens? n rest)
    | '|' :: _ => none
    | cs => do
      let (ps, bare, rest) ← word? (cs.length + 1) cs
      return .word ps bare :: (← tokens? n rest)

/-! ## Commands -/

/-- How a command depends on the one before it. -/
inductive Link where
  | always | onSuccess | onFailure
  deriving DecidableEq, Repr, Inhabited

/-- A command of a script. -/
inductive Node where
  | simple (words : List (List Piece)) (redirects : List (Bool × Sink))
  /-- Repeats a body as long as a condition holds, or as long as it does not. -/
  | loop (untilTrue : Bool) (condition body : List (Link × Node))
  /-- Runs a body for each of some words. -/
  | each (name : List Char) (words : List (List Piece)) (body : List (Link × Node))
  | branch (condition yes no : List (Link × Node))
  /-- Runs a body here, or apart from the shell. -/
  | group (apart : Bool) (body : List (Link × Node))
  | background (command : Node)
  /-- Turns success into failure, and failure into success. -/
  | negation (command : Node)
  /-- Runs a command whose streams go elsewhere. -/
  | redirected (command : Node) (redirects : List (Bool × Sink))
  deriving Repr, Inhabited

/-- The keyword that a token is, if it is a bare word. -/
def keyword : Token → String
  | .word pieces true => String.ofList (plainText pieces)
  | .closeParen => ")"
  | _ => ""

/-- The keywords that end a sequence of commands. -/
def closers : List String := ["do", "done", "then", "elif", "else", "fi", "\x7d", ")"]

/-- Reads the words of a simple command. -/
def simple : List Token → List (List Piece) × List (Bool × Sink) × List Token
  | .word ps _ :: rest =>
    let (ws, rs, rest) := simple rest
    (ps :: ws, rs, rest)
  | .redirect second target :: rest =>
    let (ws, rs, rest) := simple rest
    (ws, (second, target) :: rs, rest)
  | rest => ([], [], rest)

/-- What is left behind a keyword that has to stand there. -/
def behind? (word : String) : List Token → Option (List Token)
  | t :: ts => if keyword t = word then some ts else none
  | [] => none

/-- What is left behind separators. -/
def skipSeparators : List Token → List Token
  | .separator :: ts => skipSeparators ts
  | ts => ts

mutual

/-- Reads commands up to the end or to a keyword that ends them; the number bounds how many. -/
def commands? (link : Link) : Nat → List Token → Option (List (Link × Node) × List Token)
  | 0, _ => none
  | _, [] => some ([], [])
  | n + 1, t :: ts =>
    match t with
    | .separator => commands? .always n ts
    | .conjunction => commands? .onSuccess n ts
    | .disjunction => commands? .onFailure n ts
    | t =>
      if closers.contains (keyword t) then some ([], t :: ts)
      else do
        let (node, rest) ← command? n (t :: ts)
        let (node, rest) := match simple rest with
          | ([], r :: rs, rest) => (Node.redirected node (r :: rs), rest)
          | _ => (node, rest)
        match rest with
        | .background :: rest =>
          let (more, rest) ← commands? .always n rest
          return ((link, .background node) :: more, rest)
        | rest =>
          let (more, rest) ← commands? .always n rest
          return ((link, node) :: more, rest)

/-- Reads one command. -/
def command? : Nat → List Token → Option (Node × List Token)
  | 0, _ => none
  | _, [] => none
  | n + 1, t :: ts =>
    match keyword t, t with
    | "while", _ | "until", _ => do
      let (condition, rest) ← commands? .always n ts
      let (body, rest) ← commands? .always n (← behind? "do" rest)
      return (.loop (keyword t == "until") condition body, ← behind? "done" rest)
    | "for", _ =>
      match ts with
      | .word name _ :: rest => do
        let (words, _, rest) := simple (← behind? "in" rest)
        let (body, rest) ← commands? .always n (← behind? "do" (skipSeparators rest))
        return (.each (plainText name) words body, ← behind? "done" rest)
      | _ => none
    | "if", _ => branch? n ts
    | "!", _ => do
      let (node, rest) ← command? n ts
      return (.negation node, rest)
    | "\x7b", _ => do
      let (body, rest) ← commands? .always n ts
      return (.group false body, ← behind? "\x7d" rest)
    | _, .openParen => do
      let (body, rest) ← commands? .always n ts
      return (.group true body, ← behind? ")" rest)
    | _, _ =>
      let (ws, rs, rest) := simple (t :: ts)
      some (.simple ws rs, rest)

/-- Reads the rest of a choice behind its keyword. -/
def branch? : Nat → List Token → Option (Node × List Token)
  | 0, _ => none
  | n + 1, ts => do
    let (condition, rest) ← commands? .always n ts
    let (yes, rest) ← commands? .always n (← behind? "then" rest)
    match rest with
    | t :: ts =>
      if keyword t = "elif" then
        let (no, rest) ← branch? n ts
        return (.branch condition yes [(.always, no)], rest)
      else if keyword t = "else" then
        let (no, rest) ← commands? .always n ts
        return (.branch condition yes no, ← behind? "fi" rest)
      else return (.branch condition yes [], ← behind? "fi" rest)
    | [] => none

end

/-- The commands of a script. -/
def scriptOf? (cs : List Char) : Option (List (Link × Node)) := do
  let ts ← tokens? (cs.length + 1) cs
  let (commands, rest) ← commands? .always (4 * ts.length + 4) ts
  if rest.isEmpty then return commands else none

end Jarwright.Rehearsal.Shell
