/-!
# Instructions

A program is a list of instructions, and a loop or a block owns the list that is its body.  Cells are named by
their offset from the cursor.
-/

namespace TapeLang

/-- What a whole loop can be replaced by when its effect is known without going round.  `c0` is the cell under the
cursor, `c1` the next one, and so on. -/
inductive ClosedForm
  /-- Sets `c0` to zero. -/
  | clear
  /-- Adds `c0` to the target, then clears `c0`. -/
  | transferAdd (target : Int8)
  /-- Subtracts `c0` from the target, then clears `c0`. -/
  | transferSub (target : Int8)
  /-- Adds `c0 * c1` to `c2`; `c3` is scratch. -/
  | multiply
  /-- Multiplies `c2` by `c1 ^ c0`; `c3` and `c4` are scratch. -/
  | exponent
  /-- Leaves `c0 / c1` in `c3` and `c0 % c1` in `c2`; `c4` is scratch. -/
  | divide
  /-- For each `(offset, weight)`, adds `weight * c0` to the cell at the offset; then clears `c0`. -/
  | weighted (entries : List (Int8 × Int8))
deriving DecidableEq, Repr

inductive Instruction
  /-- Moves the cursor, to the left if the amount is negative. -/
  | move (amount : Int32)
  /-- Adds `delta` to the cell at `offset`. -/
  | add (delta offset : Int8)
  | print
  | read
  /-- Moves the cursor by `step` until it stands on a zero cell. -/
  | seek (step : Int32)
  | closed (form : ClosedForm)
  /-- Repeats the body until the cell under the cursor is zero. -/
  | loop (body : List Instruction)
  /-- Goes through the body once. -/
  | block (body : List Instruction)
deriving Repr

abbrev Program := List Instruction

namespace Instruction

def isClosedForm : Instruction → Bool
  | closed _ => true
  | _ => false

/-- The body of a loop or a block. -/
def body? : Instruction → Option Program
  | loop body | block body => some body
  | _ => none

end Instruction

mutual

/-- An instruction followed by all instructions inside it, outermost first. -/
def Instruction.preorder : Instruction → List Instruction
  | .loop body => .loop body :: Program.preorder body
  | .block body => .block body :: Program.preorder body
  | i => [i]

/-- All instructions of a program, nested ones included, in the order in which they are written. -/
def Program.preorder : List Instruction → List Instruction
  | [] => []
  | i :: rest => i.preorder ++ Program.preorder rest

end

mutual

/-- The number of instructions in an instruction, itself included. -/
def Instruction.size : Instruction → Nat
  | .loop body => Program.size body + 1
  | .block body => Program.size body + 1
  | _ => 1

/-- The number of instructions in a program, nested ones included. -/
def Program.size : List Instruction → Nat
  | [] => 0
  | i :: rest => i.size + Program.size rest

end

end TapeLang
