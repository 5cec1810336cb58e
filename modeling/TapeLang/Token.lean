import TapeLang.Symbol

/-!
# Tokens

Runs of one symbol.  Neighbouring moves or adds of one kind are merged until a run holds `maxRun` of them, and output,
input and brackets stand alone.
-/

namespace TapeLang

/-- The longest run that one token holds. -/
def maxRun : Nat := 255

structure Token where
  symbol : Symbol
  /-- How often the symbol repeats. -/
  count : Nat
  /-- Index of the run's first symbol in the text without comments. -/
  start : Nat
  /-- Byte offset of the run's first symbol in the source. -/
  position : Nat
deriving DecidableEq, Repr

namespace Token

/-- Index just past the run in the text without comments. -/
def stop (t : Token) : Nat := t.start + t.count

/-- The symbols of the run. -/
def spell (t : Token) : List Symbol := List.replicate t.count t.symbol

/-- The run can take in one more symbol `s`. -/
def Absorbs (t : Token) (s : Symbol) : Prop :=
  t.symbol = s ∧ s.isRun = true ∧ t.count < maxRun

instance (t : Token) (s : Symbol) : Decidable (t.Absorbs s) :=
  inferInstanceAs (Decidable (_ ∧ _ ∧ _))

end Token

end TapeLang
