import TapeLang.Idiom
import TapeLang.LoopSummary
import TapeLang.Outline
import TapeLang.Scan

/-!
# From source to program

`Program.ofSource` scans a text and lowers its outline.  A loop is looked up in the catalogue of idioms, then
summarised, and only if both give nothing is it kept as a loop around its lowered body.
-/

namespace TapeLang

structure Optimizations where
  /-- Replace catalogued fragments. -/
  idioms : Bool
  /-- Replace loops that only move and add by closed forms, seeks or shorter loops. -/
  closedForms : Bool
deriving DecidableEq, Repr

namespace Optimizations

def all : Optimizations := ⟨true, true⟩

/-- Every symbol is taken literally; only runs are merged. -/
def none : Optimizations := ⟨false, false⟩

end Optimizations

/-- The instruction of a token by itself.  A bracket by itself does nothing. -/
def Token.instruction (t : Token) : Instruction :=
  match t.symbol with
  | .right => .move (Int32.ofNat t.count)
  | .left => .move (-Int32.ofNat t.count)
  | .inc => .add (Int8.ofNat t.count) 0
  | .dec => .add (-Int8.ofNat t.count) 0
  | .put => .print
  | .get => .read
  | .opening | .closing => .block []

namespace Outline

/-- How a loop is lowered. -/
inductive Verdict
  | replaced (instruction : Instruction)
  | rejected (error : SourceError)
  /-- The loop stays, around its lowered body. -/
  | kept

/-- What the summary of a loop's body says about the loop. -/
def verdictOfSummary (body : List Token) : Verdict :=
  match LoopSummary.ofBody body with
  | .ok summary =>
    match summary.closedForm? with
    | some i => .replaced i
    | none => .replaced (.loop summary.canonicalBody)
  | .error (.farOffset position offset) => .rejected (.farOffset position offset)
  | .error (.effect _) => .kept

def verdict (o : Optimizations) (body : Outline) : Verdict :=
  match (if o.idioms then Idiom.ofLoopBody? body.text else none) with
  | some form => .replaced (.closed form)
  | none => if o.closedForms then verdictOfSummary body.tokens else .kept

/-- A single `>`, a loop around `-<->` and a single `<`: the idiom `>[-<->]<` that consumes no part of a longer
run. -/
def IsSubtraction (before : Token) (body : Outline) (after : Token) : Prop :=
  before.spell = [.right] ∧ body.text = Idiom.spelling Idiom.subtractionBody ∧ after.spell = [.left]

instance (before : Token) (body : Outline) (after : Token) : Decidable (IsSubtraction before body after) :=
  inferInstanceAs (Decidable (_ ∧ _ ∧ _))

def lower (o : Optimizations) : Outline → Except SourceError Program
  | done => .ok []
  | token before (loop opening closing body (token after rest)) =>
    if o.idioms ∧ IsSubtraction before body after then
      (lower o rest).map (.block Idiom.subtractionProgram :: ·)
    else
      (lower o (loop opening closing body (token after rest))).map (before.instruction :: ·)
  | token t rest => (lower o rest).map (t.instruction :: ·)
  | loop _ _ body rest =>
    let lowered : Except SourceError Instruction :=
      match verdict o body with
      | .replaced i => .ok i
      | .rejected e => .error e
      | .kept => (lower o body).map .loop
    lowered.bind fun head => (lower o rest).map (head :: ·)

/-- What becomes of a loop with the given body. -/
def lowerLoop (o : Optimizations) (body : Outline) : Except SourceError Instruction :=
  match verdict o body with
  | .replaced i => .ok i
  | .rejected e => .error e
  | .kept => (lower o body).map .loop

theorem lower_loop (o : Optimizations) (opening closing : Token) (body rest : Outline) :
    lower o (loop opening closing body rest)
      = (lowerLoop o body).bind fun head => (lower o rest).map (head :: ·) := by
  simp only [lower, lowerLoop]

end Outline

def Program.ofSource (o : Optimizations) (source : List UInt8) : Except SourceError Program :=
  (Scan.ofSource source).bind fun scan => (Outline.ofTokens scan.tokens).lower o

end TapeLang
