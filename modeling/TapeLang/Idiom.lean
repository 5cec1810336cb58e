import TapeLang.Instruction
import TapeLang.Symbol

/-!
# Idioms

A catalogue of well-known fragments.  Some of them multiply cells with each other, which no count of the changes in
one pass can find out, so fragments are recognised by their text.
-/

namespace TapeLang

namespace Idiom

open TapeLang.Symbol

/-- `->+<` with the target on the right, and so on: the four ways to write a transfer of `c0` by one to a
neighbour.  `away` leads to the neighbour, `back` returns, `change` is made there. -/
def transferBodies (away back change : Symbol) : List (List Symbol) :=
  [[dec, away, change, back], [away, change, back, dec]]

/-- `->+>+<<` -/
def copyBody : List Symbol := [dec, right, inc, right, inc, left, left]

/-- `>[>+>+<<-]>>[<<+>>-]<<<-` -/
def multiplyBody : List Symbol :=
  [right, opening, right, inc, right, inc, left, left, dec, closing,
    right, right, opening, left, left, inc, right, right, dec, closing, left, left, left, dec]

/-- `>>[>+<-]>[<<[>+>>+<<<-]>>>[<<<+>>>-]<-]<<<-` -/
def exponentBody : List Symbol :=
  [right, right, opening, right, inc, left, dec, closing,
    right, opening, left, left, opening, right, inc, right, right, inc, left, left, left, dec, closing,
    right, right, right, opening, left, left, left, inc, right, right, right, dec, closing,
    left, dec, closing, left, left, left, dec]

/-- `->-[>+>>]>[+[-<+>]>+>>]<<<<<` -/
def divideBody : List Symbol :=
  [dec, right, dec, opening, right, inc, right, right, closing,
    right, opening, inc, opening, dec, left, inc, right, closing, right, inc, right, right, closing,
    left, left, left, left, left]

/-- Fragments that are the whole body of a loop, with what the loop does. -/
def loopBodies : List (List Symbol × ClosedForm) :=
  [([dec], .clear), ([inc], .clear)]
    ++ (transferBodies right left inc).map (·, .transferAdd 1)
    ++ (transferBodies left right inc).map (·, .transferAdd (-1))
    ++ (transferBodies right left dec).map (·, .transferSub 1)
    ++ (transferBodies left right dec).map (·, .transferSub (-1))
    ++ [(copyBody, .weighted [(1, 1), (2, 1)]), (multiplyBody, .multiply), (exponentBody, .exponent),
      (divideBody, .divide)]

/-- `-<->`, the loop in the middle of `subtraction`. -/
def subtractionBody : List Symbol := [dec, left, dec, right]

/-- `>[-<->]<`: subtracts the right neighbour and clears it. -/
def subtraction : List Symbol := right :: opening :: subtractionBody ++ [closing, left]

def subtractionProgram : Program := [.move 1, .closed (.transferSub (-1)), .move (-1)]

/-- Fragments that may stand anywhere, with what replaces them. -/
def sequences : List (List Symbol × Instruction) := [(subtraction, .block subtractionProgram)]

def spelling (symbols : List Symbol) : List UInt8 := symbols.map toByte

/-- Looks up the whole text of a loop body. -/
def ofLoopBody? (text : List UInt8) : Option ClosedForm :=
  (loopBodies.find? fun entry => spelling entry.1 == text).map (·.2)

/-- Looks for a fragment at the start of a text; gives its length and what replaces it. -/
def ofSequence? (text : List UInt8) : Option (Nat × Instruction) :=
  (sequences.find? fun entry => (spelling entry.1).isPrefixOf text).map fun entry => (entry.1.length, entry.2)

end Idiom

end TapeLang
