import Jarwright.Source.Literal
import Jarwright.Text.Blank

/-!
# Tokens of source files

A source file is a sequence of words, literals and symbols with separators and comments between
them. Which words are keywords is up to the grammar. A closing angle bracket is always a symbol of
its own, since it may close type arguments; `glued` says whether a token follows the one before it
directly. A text literal with expressions in it is cut into pieces, and the tokens of the
expressions stand between the pieces.

* `tokenAt?` measures the token at the start of a text;
* `tokenize?` cuts a text into tokens and fails where no token can start.
-/

namespace Jarwright.Source

/-- The classes of tokens. -/
inductive TokenKind where
  | word
  /-- A number or a character. -/
  | literal
  /-- A piece of a text literal; the first piece opens it and the last one closes it. -/
  | text (first last : Bool)
  | symbol
  deriving DecidableEq, Repr, Inhabited

/-- A token with its place in the text, counted in characters. -/
structure Token where
  kind : TokenKind
  text : String
  start : Nat
  stop : Nat
  /-- Where the first comment in front of the token starts; the token itself if there is none. -/
  lead : Nat
  /-- Whether the token before ends where this one starts. -/
  glued : Bool
  deriving DecidableEq, Repr, Inhabited

/-! ## Symbols -/

/-- Symbols of more than one character, those of which others are a part first. -/
def longSymbols : List (List Char) :=
  ["@interface", "...", "<<=", "->", "::", "++", "--", "&&", "||", "==", "!=", "<=", "<<", "+=",
    "-=", "*=", "/=", "&=", "|=", "^=", "%="].map String.toList

/-- The other symbols. -/
def shortSymbols : List Char := "()\x7b\x7d[];,.@=><!~?:+-*/&|^%".toList

/-- The symbol at the start of a text. -/
def symbolAt? (cs : List Char) : Option (List Char) :=
  match longSymbols.find? (fun s => (Text.dropFront? s cs).isSome) with
  | some s => some s
  | none =>
    match cs with
    | c :: _ => if shortSymbols.contains c then some [c] else none
    | [] => none

/-! ## Single tokens -/

/-- A place inside a text literal where an expression stands. -/
structure Hole where
  /-- Whether the literal is a text block. -/
  block : Bool
  /-- The number of braces open in the expression. -/
  depth : Nat
  deriving DecidableEq, Repr, Inhabited

/-- A token that is a piece of a text literal, with the number of characters in front of the piece;
a piece that ends in a hole adds it to those around it. -/
def pieceToken (block first : Bool) (before : Nat) (holes : List Hole)
    (piece : Option (Nat × PieceEnd)) : Option (TokenKind × Nat × List Hole) :=
  piece.map fun
    | (n, .quotes) => (.text first true, n + before, holes)
    | (n, .hole) => (.text first false, n + before, ⟨block, 0⟩ :: holes)

/-- The piece behind a hole. -/
def pieceBehind? (block : Bool) (cs : List Char) : Option (Nat × PieceEnd) :=
  if block then blockPiece? cs else textPiece? cs

/-- The holes after a symbol: braces in the innermost one are counted. -/
def Hole.after (symbol : List Char) : List Hole → List Hole
  | [] => []
  | h :: hs =>
    match symbol with
    | ['\x7b'] => { h with depth := h.depth + 1 } :: hs
    | ['\x7d'] => { h with depth := h.depth - 1 } :: hs
    | _ => h :: hs

/-- A token that is a symbol. -/
def symbolToken? (holes : List Hole) (cs : List Char) : Option (TokenKind × Nat × List Hole) :=
  (symbolAt? cs).map fun s => (.symbol, s.length, Hole.after s holes)

/-- The kind and the number of characters of the token at the start of a text, inside and after it
the holes that are open. -/
def tokenAt? (holes : List Hole) (cs : List Char) : Option (TokenKind × Nat × List Hole) :=
  match cs, holes with
  | '"' :: '"' :: '"' :: rest, _ => pieceToken true true 3 holes (blockPiece? rest)
  | '"' :: rest, _ => pieceToken false true 1 holes (textPiece? rest)
  | '\x7d' :: rest, ⟨block, 0⟩ :: outer =>
    pieceToken block false 1 outer (pieceBehind? block rest)
  | '\'' :: _, _ => (characterLength? cs).map fun n => (.literal, n, holes)
  | cs, _ =>
    match numberLength? cs with
    | some n => some (.literal, n, holes)
    | none =>
      match cs with
      | c :: rest =>
        if startsIdentifier c then
          some (.word, 1 + (rest.takeWhile continuesIdentifier).length, holes)
        else symbolToken? holes cs
      | [] => none

/-! ## Texts -/

/-- Where a text is being read: the offset, where the comments behind it start, where the last token
ended, and the holes around. -/
structure Place where
  offset : Nat
  comment : Option Nat
  lastStop : Nat
  holes : List Hole

/-- Cuts the rest of a text into tokens; `done` holds those before, latest first. Every step takes
a character, so the length of the text bounds their number. -/
def tokenizeFrom (done : List Token) (p : Place) : Nat → List Char → Option (List Token)
  | _, [] => some done.reverse
  | 0, _ :: _ => none
  | n + 1, c :: cs =>
    if isSeparator c then tokenizeFrom done { p with offset := p.offset + 1 } n cs
    else
      match commentLength? (c :: cs) with
      | some k =>
        let comment := some (p.comment.getD p.offset)
        tokenizeFrom done { p with offset := p.offset + k, comment } n ((c :: cs).drop k)
      | none =>
        match tokenAt? p.holes (c :: cs) with
        | none => none
        | some (kind, k, holes) =>
          let stop := p.offset + k
          let t : Token := ⟨kind, String.ofList ((c :: cs).take k), p.offset, stop,
            p.comment.getD p.offset, p.offset == p.lastStop⟩
          tokenizeFrom (t :: done) ⟨stop, none, stop, holes⟩ n ((c :: cs).drop k)

/-- The tokens of a text; a mark of the byte order at its start is passed over. The character zero
is part of no token, comment or literal. -/
def tokenize? (cs : List Char) : Option (List Token) :=
  if cs.contains '\x00' then none
  else match cs with
    | '\ufeff' :: rest => tokenizeFrom [] ⟨1, none, 0, []⟩ cs.length rest
    | cs => tokenizeFrom [] ⟨0, none, 0, []⟩ cs.length cs

end Jarwright.Source
