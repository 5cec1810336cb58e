/-!
# Source errors

The ways in which a text fails to be a program, with the wording shown to the user.
-/

namespace TapeLang

/-- Why a text is not accepted.  Every position is a byte offset in the text as it was given, comments included. -/
inductive SourceError
  /-- A `[` is never closed. -/
  | unclosedLoop (position : Nat)
  /-- A `]` closes nothing. -/
  | strayClose (position : Nat)
  /-- A loop that only moves and adds reaches a cell that a signed byte cannot name. -/
  | farOffset (position : Nat) (offset : Int)
  /-- Loops are nested deeper than `limit`. -/
  | nestedTooDeep (position limit : Nat)
deriving DecidableEq, Repr

namespace SourceError

def position : SourceError → Nat
  | unclosedLoop p | strayClose p | farOffset p _ | nestedTooDeep p _ => p

/-- The number by which the error is known to the user. -/
def identifier : SourceError → Nat
  | unclosedLoop _ => 1
  | strayClose _ => 2
  | farOffset _ _ => 3
  | nestedTooDeep _ _ => 4

/-- What went wrong, without number and position. -/
def explanation : SourceError → String
  | unclosedLoop _ => "too many '[' brackets. Check that each '[' has a matching ']'"
  | strayClose _ => "too many ']' brackets. Check that each '[' has a matching ']'"
  | farOffset _ offset => s!"loop body reaches offset {offset}, which does not fit in a signed byte"
  | nestedTooDeep _ limit => s!"loops are nested more than {limit} deep"

def message (e : SourceError) : String :=
  s!"error[000{e.identifier}]: byte {e.position}: {e.explanation}"

end SourceError

end TapeLang
