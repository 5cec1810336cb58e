import TapeLang.Process
import TapeLang.Symbol
import TapeLang.Tape

/-!
# The language, one symbol at a time

A machine that knows nothing of tokens, loops or instructions: it stands at a symbol of the text, obeys it, and goes
to the next one, or jumps to the other bracket of a pair.  It says what a program means.
-/

namespace TapeLang

namespace Reference

/-- How many symbols there are up to and including the first `last` that does not belong to a `first` among
them. -/
def reach (first last : Symbol) (depth : Nat) : List Symbol → Nat
  | [] => 0
  | s :: rest =>
    if s = last then
      match depth with
      | 0 => 1
      | outer + 1 => reach first last outer rest + 1
    else if s = first then reach first last (depth + 1) rest + 1
    else reach first last depth rest + 1

/-- The place behind the `]` that belongs to the `[` at a place. -/
def pastClose (code : List Symbol) (place : Nat) : Nat :=
  place + 1 + reach .opening .closing 0 (code.drop (place + 1))

/-- The place of the `[` that belongs to the `]` at a place. -/
def backToOpen (code : List Symbol) (place : Nat) : Nat :=
  place - reach .closing .opening 0 (code.take place).reverse

inductive Phase
  | at_ (place : Nat)
  /-- The output is flushed and a byte is wanted; then the place is this. -/
  | awaiting (place : Nat)
  | finished
deriving DecidableEq, Repr

structure State where
  phase : Phase
  tape : Tape

def start (t : Tape) : State := ⟨.at_ 0, t⟩

def request (code : List Symbol) (s : State) : Request :=
  match s.phase with
  | .at_ place =>
    match code[place]? with
    | some .put => .write s.tape.current
    | some .get | none => .flush
    | some _ => .silent
  | .awaiting _ => .read
  | .finished => .halt

/-- Obeys a symbol. -/
def obey (code : List Symbol) (place : Nat) (t : Tape) : Symbol → State
  | .right => ⟨.at_ (place + 1), t.move 1⟩
  | .left => ⟨.at_ (place + 1), t.move (-1)⟩
  | .inc => ⟨.at_ (place + 1), t.setCurrent (t.current + 1)⟩
  | .dec => ⟨.at_ (place + 1), t.setCurrent (t.current - 1)⟩
  | .put => ⟨.at_ (place + 1), t⟩
  | .get => ⟨.awaiting (place + 1), t⟩
  | .opening => ⟨.at_ (if t.current = 0 then pastClose code place else place + 1), t⟩
  | .closing => ⟨.at_ (if t.current = 0 then place + 1 else backToOpen code place), t⟩

def resume (code : List Symbol) (s : State) (answer : Option UInt8) : State :=
  match s with
  | ⟨.at_ place, t⟩ =>
    match code[place]? with
    | some symbol => obey code place t symbol
    | none => ⟨.finished, t⟩
  | ⟨.awaiting place, t⟩ =>
    ⟨.at_ place, match answer with | some byte => t.setCurrent byte | none => t⟩
  | ⟨.finished, t⟩ => ⟨.finished, t⟩

def process (code : List Symbol) : Process State := ⟨request code, resume code⟩

/-- The machine for a text; comments are no symbols. -/
def ofSource (source : List UInt8) : Process State := process ((marks source).map Mark.symbol)

end Reference

end TapeLang
