import TapeLang.Instruction
import TapeLang.Token

/-!
# Loop summaries

A loop body that only moves and adds is summarised by where the cursor ends up after one pass and by how much each
cell changes in it.  From the summary comes a closed form of the whole loop (`closedForm?`), or at least a shorter
body with the same effect (`canonicalBody`).
-/

namespace TapeLang

/-- The change of each cell in one pass, as pairs of offset and change, ascending by offset. -/
abbrev Deltas := List (Int8 × Int8)

namespace Deltas

/-- Adds `amount` to the change at `offset`. -/
def bump (offset amount : Int8) : Deltas → Deltas
  | [] => [(offset, amount)]
  | (o, d) :: rest =>
    if offset < o then (offset, amount) :: (o, d) :: rest
    else if offset = o then (o, d + amount) :: rest
    else (o, d) :: bump offset amount rest

/-- Makes `amount` the change at `offset`, whatever it was. -/
def put (offset amount : Int8) : Deltas → Deltas
  | [] => [(offset, amount)]
  | (o, d) :: rest =>
    if offset < o then (offset, amount) :: (o, d) :: rest
    else if offset = o then (o, amount) :: rest
    else (o, d) :: put offset amount rest

def at? (ds : Deltas) (offset : Int8) : Option Int8 := ds.lookup offset

end Deltas

structure LoopSummary where
  /-- Where the cursor ends up, seen from where it started. -/
  displacement : Int8
  deltas : Deltas
deriving DecidableEq, Repr

/-- Why a loop body has no summary. -/
inductive Obstacle
  /-- The body does input or output, or holds a loop. -/
  | effect (symbol : Symbol)
  /-- The cursor goes further than a signed byte can say. -/
  | farOffset (position : Nat) (offset : Int)
deriving DecidableEq, Repr

namespace LoopSummary

/-- How far a token moves the cursor. -/
def shift (t : Token) : Int :=
  match t.symbol with
  | .right => t.count
  | .left => -t.count
  | _ => 0

/-- By how much a token changes the cell under the cursor. -/
def change (t : Token) : Int8 :=
  match t.symbol with
  | .inc => Int8.ofNat t.count
  | .dec => -Int8.ofNat t.count
  | _ => 0

def FitsByte (offset : Int) : Prop := -128 ≤ offset ∧ offset ≤ 127

instance (offset : Int) : Decidable (FitsByte offset) := inferInstanceAs (Decidable (_ ∧ _))

/-- Where the cursor is out of the range of a signed byte, and how far, if it is. -/
def farAt (cursor : Int) (t : Token) : Option (Nat × Int) :=
  if FitsByte cursor then none else some (t.position, cursor)

/-- What is known of a body of which some tokens are passed. -/
structure Survey where
  cursor : Int
  deltas : Deltas
  /-- Where the cursor first went too far, and how far. -/
  far : Option (Nat × Int)
deriving DecidableEq, Repr

namespace Survey

def start : Survey := ⟨0, [], none⟩

/-- Passes a token.  Input, output and loops end the survey at once; that the cursor goes too far is noted, since one
of them may still come. -/
def step (s : Survey) (t : Token) : Except Obstacle Survey :=
  match t.symbol with
  | .right | .left =>
    let cursor := s.cursor + shift t
    .ok { s with cursor := cursor, far := s.far.or (farAt cursor t) }
  | .inc | .dec =>
    match farAt s.cursor t with
    | some far => .ok { s with far := s.far.or (some far) }
    | none => .ok { s with deltas := s.deltas.bump (Int8.ofInt s.cursor) (change t) }
  | symbol => .error (.effect symbol)

def run (s : Survey) : List Token → Except Obstacle Survey
  | [] => .ok s
  | t :: rest => (s.step t).bind fun s => s.run rest

/-- The summary, without the cells that end up unchanged. -/
def finish (s : Survey) : Except Obstacle LoopSummary :=
  match s.far with
  | some (position, offset) => .error (.farOffset position offset)
  | none => .ok ⟨Int8.ofInt s.cursor, s.deltas.filter fun entry => entry.2 != 0⟩

end Survey

def ofBody (body : List Token) : Except Obstacle LoopSummary := (Survey.start.run body).bind Survey.finish

/-- What the loop does in each pass to the cells other than the counter, for every unit that the counter loses.  A
counter that goes up by one passes zero after `256 - v` rounds, which is `-v`. -/
def entriesPerUnit (s : LoopSummary) (sign : Int8) : List (Int8 × Int8) :=
  (s.deltas.filter fun entry => entry.1 != 0).map fun entry => (entry.1, entry.2 * sign)

/-- The transfer with the given weights, in its simplest form. -/
def transfer : List (Int8 × Int8) → ClosedForm
  | [] => .clear
  | [(target, weight)] =>
    if weight = 1 then .transferAdd target
    else if weight = -1 then .transferSub target
    else .weighted [(target, weight)]
  | entries => .weighted entries

/-- One instruction for the whole loop, if there is one: the cursor comes back and the counter changes by one in
each pass, or the cursor moves on and nothing changes. -/
def closedForm? (s : LoopSummary) : Option Instruction :=
  if s.displacement = 0 then
    if s.deltas.at? 0 = some (-1) then some (.closed (transfer (s.entriesPerUnit 1)))
    else if s.deltas.at? 0 = some 1 then some (.closed (transfer (s.entriesPerUnit (-1))))
    else none
  else if s.deltas.isEmpty then some (.seek s.displacement.toInt32)
  else none

/-- One pass in short: one add for each cell that changes, then one move. -/
def canonicalBody (s : LoopSummary) : Program :=
  s.deltas.map (fun entry => .add entry.2 entry.1)
    ++ (if s.displacement = 0 then [] else [.move s.displacement.toInt32])

end LoopSummary

end TapeLang
