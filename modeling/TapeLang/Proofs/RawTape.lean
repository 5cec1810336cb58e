import Mathlib.Algebra.Ring.Int.Defs
import TapeLang.Arithmetic
import TapeLang.Proofs.CountingLoops
import TapeLang.Proofs.Outcomes
import TapeLang.Proofs.Tape

/-!
# The tape without guarantees

A tape always has all its cells and a cursor on one of them, so nothing can go wrong on it.  A raw tape is any row of
cells with a number for a cursor, and its operations are the ones that a real machine has: sums of words that may
overflow, bytes that may be subtracted below zero, remainders that may be taken by zero, cells that may not be there.
Whatever goes wrong is a `Mishap`.

On raw tapes that come from tapes nothing goes wrong, and every operation does what the operation of the tape does
(`raw_move`, `raw_set`, `raw_apply` and so on).
-/

namespace TapeLang

/-- What can go wrong in an operation on a raw tape. -/
inductive Mishap
  /-- A sum that does not fit into a word. -/
  | overflow (sum : Int)
  /-- A difference of natural numbers that is less than zero. -/
  | underflow (a b : Nat)
  | divisionByZero
  /-- A cell is used that is not there. -/
  | noCell (index : Nat)
  /-- The row is empty, so there is no last cell to stop at. -/
  | noLastCell
deriving DecidableEq, Repr

/-- The number fits into a signed word of 64 bits. -/
def FitsWord (n : Int) : Prop := -2 ^ 63 ≤ n ∧ n < 2 ^ 63

instance (n : Int) : Decidable (FitsWord n) := inferInstanceAs (Decidable (_ ∧ _))

/-- A difference that must not be negative. -/
def checkedSub (a b : Nat) : Except Mishap Nat := if b ≤ a then .ok (a - b) else .error (.underflow a b)

theorem checkedSub_eq {a b : Nat} (h : b ≤ a) : checkedSub a b = .ok (a - b) := if_pos h

def checkedDiv (a b : Nat) : Except Mishap Nat := if b = 0 then .error .divisionByZero else .ok (a / b)

def checkedMod (a b : Nat) : Except Mishap Nat := if b = 0 then .error .divisionByZero else .ok (a % b)

theorem checkedDiv_eq {a b : Nat} (h : b ≠ 0) : checkedDiv a b = .ok (a / b) := if_neg h

theorem checkedMod_eq {a b : Nat} (h : b ≠ 0) : checkedMod a b = .ok (a % b) := if_neg h

/-- Any number of cells, and a cursor that may stand anywhere. -/
structure RawTape where
  cells : Array UInt8
  cursor : Nat

namespace RawTape

/-- The cursor and an offset, added as words. -/
def sum (t : RawTape) (offset : Int) : Except Mishap Int :=
  if FitsWord (t.cursor + offset) then .ok (t.cursor + offset) else .error (.overflow (t.cursor + offset))

def lastCell (t : RawTape) : Except Mishap Nat :=
  if t.cells.size = 0 then .error .noLastCell else .ok (t.cells.size - 1)

def move (t : RawTape) (amount : Int) : Except Mishap RawTape := do
  let target ← t.sum amount
  let last ← t.lastCell
  pure { t with cursor := min target.toNat last }

def moveTo (t : RawTape) (n : Nat) : Except Mishap RawTape := do
  let last ← t.lastCell
  pure { t with cursor := min n last }

def readCell (t : RawTape) (i : Nat) : Except Mishap UInt8 :=
  match t.cells[i]? with
  | some value => .ok value
  | none => .error (.noCell i)

def writeCell (t : RawTape) (i : Nat) (value : UInt8) : Except Mishap RawTape :=
  if h : i < t.cells.size then .ok { t with cells := t.cells.set i value h } else .error (.noCell i)

def current (t : RawTape) : Except Mishap UInt8 := t.readCell t.cursor

def setCurrent (t : RawTape) (value : UInt8) : Except Mishap RawTape := t.writeCell t.cursor value

/-- The cell at an offset from the cursor, if it is in the row. -/
def index? (t : RawTape) (offset : Int) : Except Mishap (Option Nat) := do
  let i ← t.sum offset
  pure (if 0 ≤ i ∧ i.toNat < t.cells.size then some i.toNat else none)

def get (t : RawTape) (offset : Int) : Except Mishap UInt8 := do
  match ← t.index? offset with
  | some i => t.readCell i
  | none => pure 0

def set (t : RawTape) (offset : Int) (value : UInt8) : Except Mishap RawTape := do
  match ← t.index? offset with
  | some i => t.writeCell i value
  | none => pure t

def add (t : RawTape) (offset : Int) (delta : UInt8) : Except Mishap RawTape := do
  match ← t.index? offset with
  | some i =>
    let value ← t.readCell i
    t.writeCell i (value + delta)
  | none => pure t

/-! ### Closed forms -/

def transfer (t : RawTape) (entries : List (Int8 × Int8)) : Except Mishap RawTape := do
  let v ← t.current
  let t ← entries.foldlM (fun t entry => t.add entry.1.toInt (entry.2.toUInt8 * v)) t
  t.setCurrent 0

def multiply (t : RawTape) : Except Mishap RawTape := do
  let a ← t.get 0
  if a = 0 then pure t
  else
    let b ← t.get 1
    let r ← t.get 2
    let scratch ← t.get 3
    let factor := b + scratch
    let rounds ← checkedSub a.toNat 1
    let t ← t.set 1 factor
    let t ← t.set 2 (r + b + UInt8.ofNat rounds * factor)
    let t ← t.set 3 0
    t.set 0 0

def exponent (t : RawTape) : Except Mishap RawTape := do
  let e ← t.get 0
  if e = 0 then pure t
  else
    let base ← t.get 1
    let start ← t.get 2
    let t ← t.set 2 (Nat.repeat (· * base) e.toNat start)
    let t ← t.set 3 0
    let t ← t.set 4 0
    t.set 0 0

def divide (t : RawTape) : Except Mishap RawTape := do
  let n ← t.get 0
  if n = 0 then pure t
  else
    let d := Tape.divisor (← t.get 1)
    let remainder ← checkedMod n.toNat d
    let missing ← checkedSub d remainder
    let quotient ← checkedDiv n.toNat d
    let t ← t.set 1 (UInt8.ofNat missing)
    let t ← t.set 2 (UInt8.ofNat remainder)
    let t ← t.set 3 (UInt8.ofNat quotient)
    t.set 0 0

def apply (t : RawTape) : ClosedForm → Except Mishap RawTape
  | .clear => t.setCurrent 0
  | .transferAdd target => t.transfer [(target, 1)]
  | .transferSub target => t.transfer [(target, -1)]
  | .multiply => t.multiply
  | .exponent => t.exponent
  | .divide => t.divide
  | .weighted entries => t.transfer entries

/-- All cells are there, and the cursor stands on one of them. -/
structure Valid (t : RawTape) : Prop where
  size : t.cells.size = 30000
  cursor : t.cursor < 30000

end RawTape

namespace Tape

/-- The tape as a raw one. -/
def raw (t : Tape) : RawTape := ⟨t.cells.toArray, t.cursor⟩

theorem valid_raw (t : Tape) : t.raw.Valid := ⟨t.cells.size_toArray, t.cursor.isLt⟩

end Tape

/-- Valid raw tapes are tapes. -/
theorem RawTape.Valid.exists_raw {r : RawTape} (h : r.Valid) : ∃ t : Tape, t.raw = r :=
  ⟨⟨⟨r.cells, h.size⟩, ⟨r.cursor, h.cursor⟩⟩, rfl⟩

/-! ### Operations on raw tapes that come from tapes -/

namespace Tape

variable {t : Tape} {offset : Int} {v : UInt8}

theorem fitsWord_of_near (t : Tape) (near : -2 ^ 31 ≤ offset ∧ offset < 2 ^ 31) : FitsWord (t.cursor + offset) := by
  have cursor := t.cursor.isLt
  have length : tapeLength = 30000 := rfl
  unfold FitsWord
  omega

theorem raw_sum (fits : FitsWord (t.cursor + offset)) : t.raw.sum offset = .ok (t.cursor + offset) := if_pos fits

theorem raw_lastCell (t : Tape) : t.raw.lastCell = .ok (tapeLength - 1) := by
  have size : t.raw.cells.size = tapeLength := t.cells.size_toArray
  rw [RawTape.lastCell, size]
  rfl

theorem raw_move (fits : FitsWord (t.cursor + offset)) : t.raw.move offset = .ok (t.move offset).raw := by
  rw [RawTape.move, raw_sum fits, ok_bind, raw_lastCell]
  rfl

theorem raw_moveTo (t : Tape) (n : Nat) : t.raw.moveTo n = .ok (t.moveTo n).raw := by
  rw [RawTape.moveTo, raw_lastCell]
  rfl

theorem getElem?_raw (t : Tape) (i : Fin tapeLength) : t.raw.cells[i.val]? = some (t.cells.get i) := by
  rw [raw, Vector.getElem?_toArray, Vector.getElem?_eq_getElem i.isLt]
  rfl

theorem raw_readCell (t : Tape) (i : Fin tapeLength) : t.raw.readCell i = .ok (t.cells.get i) := by
  rw [RawTape.readCell, getElem?_raw]

theorem raw_writeCell (t : Tape) (i : Fin tapeLength) (v : UInt8) : t.raw.writeCell i v = .ok (t.put i v).raw := by
  have bound : i.val < t.raw.cells.size := by
    rw [(t.valid_raw).size]
    exact i.isLt
  rw [RawTape.writeCell, dif_pos bound]
  rfl

theorem raw_current (t : Tape) : t.raw.current = .ok t.current := t.raw_readCell t.cursor

theorem raw_setCurrent (t : Tape) (v : UInt8) : t.raw.setCurrent v = .ok (t.setCurrent v).raw :=
  t.raw_writeCell t.cursor v

theorem raw_index? (fits : FitsWord (t.cursor + offset)) :
    t.raw.index? offset = .ok ((t.index? offset).map Fin.val) := by
  have size : t.raw.cells.size = tapeLength := t.cells.size_toArray
  rw [RawTape.index?, raw_sum fits, ok_bind, size, index?]
  by_cases inside : 0 ≤ (t.cursor : Int) + offset ∧ ((t.cursor : Int) + offset).toNat < tapeLength
  · rw [if_pos inside, dif_pos inside]
    rfl
  · rw [if_neg inside, dif_neg inside]
    rfl

theorem raw_get (fits : FitsWord (t.cursor + offset)) : t.raw.get offset = .ok (t.get offset) := by
  rw [RawTape.get, raw_index? fits, ok_bind, get]
  cases t.index? offset with
  | none => rfl
  | some i => exact t.raw_readCell i

theorem raw_set (fits : FitsWord (t.cursor + offset)) (v : UInt8) :
    t.raw.set offset v = .ok (t.set offset v).raw := by
  rw [RawTape.set, raw_index? fits, ok_bind, set]
  cases t.index? offset with
  | none => rfl
  | some i => exact t.raw_writeCell i v

theorem raw_add (fits : FitsWord (t.cursor + offset)) (v : UInt8) :
    t.raw.add offset v = .ok (t.add offset v).raw := by
  rw [RawTape.add, raw_index? fits, ok_bind, add]
  cases t.index? offset with
  | none => rfl
  | some i =>
    simp only [Option.map_some, raw_readCell, ok_bind]
    exact t.raw_writeCell i _

/-! ### Closed forms on raw tapes -/

theorem near_toInt8 (o : Int8) : -2 ^ 31 ≤ o.toInt ∧ o.toInt < 2 ^ 31 := by
  have lower := o.le_toInt
  have upper := o.toInt_lt
  omega

theorem raw_addEntries (t : Tape) (entries : List (Int8 × Int8)) (v : UInt8) :
    entries.foldlM (fun t entry => t.add entry.1.toInt (entry.2.toUInt8 * v)) t.raw
      = .ok (entries.foldl (fun t entry => t.add entry.1.toInt (entry.2.toUInt8 * v)) t).raw := by
  induction entries generalizing t with
  | nil => rfl
  | cons entry entries ih =>
    rw [List.foldlM_cons, raw_add (t.fitsWord_of_near (near_toInt8 entry.1)), ok_bind, ih, List.foldl_cons]

theorem raw_transfer (t : Tape) (entries : List (Int8 × Int8)) :
    t.raw.transfer entries = .ok (t.transfer entries).raw := by
  rw [RawTape.transfer, raw_current, ok_bind, raw_addEntries, ok_bind, raw_setCurrent]
  rfl

/-- An offset as the arithmetic closed forms have it. -/
theorem fitsWord_small (t : Tape) (near : 0 ≤ offset ∧ offset ≤ 4) : FitsWord (t.cursor + offset) :=
  t.fitsWord_of_near (by omega)

theorem raw_get_small (t : Tape) (near : 0 ≤ offset ∧ offset ≤ 4) : t.raw.get offset = .ok (t.get offset) :=
  raw_get (t.fitsWord_small near)

theorem raw_set_small (t : Tape) (near : 0 ≤ offset ∧ offset ≤ 4) (v : UInt8) :
    t.raw.set offset v = .ok (t.set offset v).raw :=
  raw_set (t.fitsWord_small near) v

theorem raw_multiply (t : Tape) : t.raw.multiply = .ok t.multiply.raw := by
  rw [RawTape.multiply, raw_get_small t (by decide), ok_bind, get_zero]
  by_cases zero : t.current = 0
  · rw [if_pos zero, multiply_of_zero zero]
    rfl
  · have pred := toNat_pred zero
    have rounds : checkedSub t.current.toNat 1 = .ok (t.current - 1).toNat := by
      rw [checkedSub_eq (by omega)]
      exact congrArg Except.ok (by omega)
    rw [if_neg zero, multiply, if_neg zero]
    simp (disch := decide) only [raw_get_small, raw_set_small, ok_bind, rounds, UInt8.ofNat_toNat, setCurrent_eq_set]

theorem raw_exponent (t : Tape) : t.raw.exponent = .ok t.exponent.raw := by
  rw [RawTape.exponent, raw_get_small t (by decide), ok_bind, get_zero]
  by_cases zero : t.current = 0
  · rw [if_pos zero, exponent_of_zero zero]
    rfl
  · rw [if_neg zero, exponent, if_neg zero]
    simp (disch := decide) only [raw_get_small, raw_set_small, ok_bind, setCurrent_eq_set]

theorem divisor_ne_zero (d : UInt8) : divisor d ≠ 0 := by
  unfold divisor
  split
  · decide
  · next nonzero => exact fun zero => nonzero (UInt8.toNat_inj.1 zero)

theorem raw_divide (t : Tape) : t.raw.divide = .ok t.divide.raw := by
  rw [RawTape.divide, raw_get_small t (by decide), ok_bind, get_zero]
  by_cases zero : t.current = 0
  · rw [if_pos zero, divide_of_zero zero]
    rfl
  · have nonzero : t.current.toNat ≠ 0 := fun h => zero (UInt8.toNat_inj.1 h)
    have positive := divisor_ne_zero (t.get 1)
    have less : t.current.toNat % divisor (t.get 1) ≤ divisor (t.get 1) :=
      Nat.le_of_lt (Nat.mod_lt _ (Nat.pos_of_ne_zero positive))
    rw [if_neg zero, divide, if_neg nonzero]
    simp (disch := decide) only [raw_get_small, raw_set_small, ok_bind, checkedMod_eq positive, checkedSub_eq less,
      checkedDiv_eq positive, setCurrent_eq_set]

theorem raw_apply (t : Tape) (form : ClosedForm) : t.raw.apply form = .ok (form.apply t).raw := by
  cases form with
  | clear => exact t.raw_setCurrent 0
  | transferAdd target | transferSub target | weighted entries => exact t.raw_transfer _
  | multiply => exact t.raw_multiply
  | exponent => exact t.raw_exponent
  | divide => exact t.raw_divide

end Tape

end TapeLang
