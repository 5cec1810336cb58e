import TapeLang.Tape

/-!
# The machine

A tape together with counters of the work done on it.
-/

namespace TapeLang

/-- How often each kind of instruction was carried out to its end.  A loop counts its passes.

The numbers have no bound here.  On a real machine they have 64 bits: counting one by one, no run gets there. -/
structure Counters where
  moves : Nat
  adds : Nat
  prints : Nat
  reads : Nat
  passes : Nat
  seeks : Nat
  closedForms : Nat
deriving DecidableEq, Repr

namespace Counters

def zero : Counters := ⟨0, 0, 0, 0, 0, 0, 0⟩

def total (c : Counters) : Nat :=
  c.moves + c.adds + c.prints + c.reads + c.passes + c.seeks + c.closedForms

/-- The counters as a table for reading. -/
def table (c : Counters) : String :=
  s!" moves:        {c.moves}\n adds:         {c.adds}\n prints:       {c.prints}\n reads:        {c.reads}\n" ++
  s!" loop passes:  {c.passes}\n seeks:        {c.seeks}\n closed forms: {c.closedForms}\n" ++
  s!" total:        {c.total}"

/-- The counters on one line. -/
def describe (c : Counters) : String :=
  s!"Stats \x7b moves: {c.moves}, adds: {c.adds}, prints: {c.prints}, reads: {c.reads}, " ++
  s!"loop_passes: {c.passes}, seeks: {c.seeks}, closed_forms: {c.closedForms} \x7d"

end Counters

structure Machine where
  tape : Tape
  counters : Counters

namespace Machine

def fresh : Machine := ⟨Tape.blank, Counters.zero⟩

/-- How many cells `describe` shows. -/
def shownCells : Nat := 10

/-- Cursor, first cells and counters on one line. -/
def describe (m : Machine) : String :=
  let shown := (m.tape.cells.toList.take shownCells).map fun v => toString v.toNat
  let cells := ", ".intercalate shown
  let counters := m.counters.describe
  s!"TapeMachine \x7b cursor: {m.tape.cursor.val}, cells: [{cells}], stats: {counters} \x7d"

end Machine

end TapeLang
