import TapeLang.Instruction
import TapeLang.Line

/-!
# Listings

A program written out for reading: one line an instruction, bodies indented and closed by `end`.
-/

namespace TapeLang

/-- A number with its sign, also in front of zero. -/
def signed (n : Int8) : String :=
  if n < 0 then toString n.toInt else "+" ++ toString n.toInt

/-- The cell at an offset from the cursor. -/
def cellName (offset : Int8) : String := "[p" ++ signed offset ++ "]"

def ClosedForm.listing : ClosedForm → String
  | clear => "zro"
  | transferAdd target => cellName target ++ " <- " ++ cellName target ++ " + [p]; zro"
  | transferSub target => cellName target ++ " <- " ++ cellName target ++ " - [p]; zro"
  | multiply => "mul"
  | exponent => "pow"
  | divide => "div"
  | weighted entries =>
    "wtr" ++ String.join (entries.map fun (offset, weight) => " " ++ cellName offset ++ "*" ++ toString weight.toInt)

/-- The line of an instruction; of a loop or a block, the line that opens it. -/
def Instruction.listing : Instruction → String
  | move amount => "p <- p + #" ++ toString amount.toInt
  | add delta offset => cellName offset ++ " <- " ++ cellName offset ++ " + #" ++ toString delta.toInt
  | print => "putchar [p]"
  | read => "getchar [p]"
  | seek step => "seek #" ++ toString step.toInt
  | closed form => form.listing
  | loop _ => "loop"
  | block _ => "block"

mutual

def Instruction.lines (depth : Nat) : Instruction → List Line
  | .loop body => ⟨depth, "loop"⟩ :: (Program.lines (depth + 1) body ++ [⟨depth, "end"⟩])
  | .block body => ⟨depth, "block"⟩ :: (Program.lines (depth + 1) body ++ [⟨depth, "end"⟩])
  | i => [⟨depth, i.listing⟩]

def Program.lines (depth : Nat) : List Instruction → List Line
  | [] => []
  | i :: rest => i.lines depth ++ Program.lines depth rest

end

def Program.listing (p : Program) : String := Line.renderAll (Program.lines 0 p)

end TapeLang
