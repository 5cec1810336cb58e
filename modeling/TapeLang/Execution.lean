import TapeLang.Arithmetic
import TapeLang.Machine
import TapeLang.Process

/-!
# Execution

A program runs on a machine as a process.  What is left to do is a list of instructions: a loop that goes round puts
its body and itself in front of the rest.  Before each read the output is flushed, so that everything printed is
seen by whoever is asked for input, and once more at the end.  An instruction is counted when it is done.
-/

namespace TapeLang

namespace Execution

inductive Phase
  /-- These instructions are left. -/
  | running (todo : Program)
  /-- The output is flushed and a byte is wanted for the current cell; then these instructions are left. -/
  | awaiting (todo : Program)
  | finished

structure State where
  phase : Phase
  machine : Machine

def start (p : Program) (m : Machine) : State := ⟨.running p, m⟩

def request (s : State) : Request :=
  match s.phase with
  | .running [] => .flush
  | .running (.print :: _) => .write s.machine.tape.current
  | .running (.read :: _) => .flush
  | .running _ => .silent
  | .awaiting _ => .read
  | .finished => .halt

/-- Carries out the first instruction that is left. -/
def carryOut (i : Instruction) (rest : Program) (m : Machine) : State :=
  match i with
  | .move amount =>
    ⟨.running rest,
      { m with tape := m.tape.move amount.toInt, counters := { m.counters with moves := m.counters.moves + 1 } }⟩
  | .add delta offset =>
    ⟨.running rest,
      { m with tape := m.tape.add offset.toInt delta.toUInt8,
               counters := { m.counters with adds := m.counters.adds + 1 } }⟩
  | .print => ⟨.running rest, { m with counters := { m.counters with prints := m.counters.prints + 1 } }⟩
  | .read => ⟨.awaiting rest, m⟩
  | .seek step =>
    if m.tape.current = 0 then
      ⟨.running rest, { m with counters := { m.counters with seeks := m.counters.seeks + 1 } }⟩
    else ⟨.running (.seek step :: rest), { m with tape := m.tape.move step.toInt }⟩
  | .closed form =>
    ⟨.running rest,
      { m with tape := form.apply m.tape,
               counters := { m.counters with closedForms := m.counters.closedForms + 1 } }⟩
  | .loop body =>
    if m.tape.current = 0 then ⟨.running rest, m⟩
    else
      ⟨.running (body ++ .loop body :: rest),
        { m with counters := { m.counters with passes := m.counters.passes + 1 } }⟩
  | .block body => ⟨.running (body ++ rest), m⟩

/-- Takes in the byte that was read; at the end of the input the cell is left alone. -/
def takeIn (answer : Option UInt8) (m : Machine) : Machine :=
  { m with tape := match answer with | some byte => m.tape.setCurrent byte | none => m.tape,
           counters := { m.counters with reads := m.counters.reads + 1 } }

def resume (s : State) (answer : Option UInt8) : State :=
  match s with
  | ⟨.running [], m⟩ => ⟨.finished, m⟩
  | ⟨.running (i :: rest), m⟩ => carryOut i rest m
  | ⟨.awaiting rest, m⟩ => ⟨.running rest, takeIn answer m⟩
  | ⟨.finished, m⟩ => ⟨.finished, m⟩

def process : Process State := ⟨request, resume⟩

/-- Steps after which a run is given up: more than anyone can wait for. -/
def patience : Nat := 4611686018427387904

end Execution

/-- Runs a program on a machine, for as long as it takes. -/
def Program.execute (p : Program) (m : Machine) (io : Streams) : Outcome Execution.State :=
  Execution.process.run Execution.patience (Execution.start p m) io

/-- What a failed run says. -/
def Fault.runMessage (f : Fault) : String := s!"I/O error while running program: {f.description}"

end TapeLang
