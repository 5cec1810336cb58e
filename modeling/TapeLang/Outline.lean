import TapeLang.Token

/-!
# Outlines

The bracket structure of a token list, as a tree.  `Outline.ofTokens` reads the tokens from the end, so that a `]`
is met before the body it closes.  Reading a token loses nothing unless it is a `[` that no `]` waits for
(`Reading.tokens_prepend`).
-/

namespace TapeLang

/-- A sequence of tokens in which every loop is one node, with its two brackets and its body. -/
inductive Outline
  | done
  | token (t : Token) (rest : Outline)
  | loop (opening closing : Token) (body rest : Outline)
deriving DecidableEq, Repr

namespace Outline

def tokens : Outline → List Token
  | done => []
  | token t rest => t :: rest.tokens
  | loop o c body rest => o :: (body.tokens ++ c :: rest.tokens)

/-- The text that the outline stands for. -/
def text (o : Outline) : List UInt8 :=
  (o.tokens.flatMap Token.spell).map Symbol.toByte

/-- What is known after reading a token list from its end back to some point: the body read so far, and for every
`]` that still waits for its `[` that token with what follows it, the innermost first. -/
structure Reading where
  body : Outline
  waiting : List (Token × Outline)

/-- Reads one more token.  A `[` that nothing waits for is dropped. -/
def Reading.prepend (r : Reading) (t : Token) : Reading :=
  match t.symbol with
  | .closing => ⟨done, (t, r.body) :: r.waiting⟩
  | .opening =>
    match r.waiting with
    | [] => r
    | (c, after) :: waiting => ⟨loop t c r.body after, waiting⟩
  | _ => ⟨token t r.body, r.waiting⟩

/-- All tokens read so far. -/
def Reading.tokens (r : Reading) : List Token :=
  r.body.tokens ++ r.waiting.flatMap fun (c, after) => c :: after.tokens

theorem Reading.tokens_prepend (t : Token) (r : Reading) (h : t.symbol = .opening → r.waiting ≠ []) :
    (r.prepend t).tokens = t :: r.tokens := by
  rcases r with ⟨body, waiting⟩
  rcases t with ⟨symbol, count, start, position⟩
  cases symbol with
  | opening =>
    cases waiting with
    | nil => exact absurd rfl (h rfl)
    | cons w rest => simp [Reading.tokens, Reading.prepend, Outline.tokens]
  | _ => simp [Reading.tokens, Reading.prepend, Outline.tokens]

def read (ts : List Token) : Reading := ts.foldr (fun t r => r.prepend t) ⟨done, []⟩

def ofTokens (ts : List Token) : Outline := (read ts).body

end Outline

end TapeLang
