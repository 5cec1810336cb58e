/-!
# The tape

A row of byte cells with a cursor that always stands on one of them.  Moves past an end stop at the last cell.  A
cell is named by its offset from the cursor: off the tape, reading gives zero and writing does nothing.
-/

namespace TapeLang

def tapeLength : Nat := 30000

theorem tapeLength_pos : 0 < tapeLength := by decide

structure Tape where
  cells : Vector UInt8 tapeLength
  cursor : Fin tapeLength

namespace Tape

def blank : Tape := ⟨Vector.replicate tapeLength 0, ⟨0, tapeLength_pos⟩⟩

/-- The cell at a given distance from the left end, which is the last cell if the distance is too large. -/
def cellNumber (n : Nat) : Fin tapeLength :=
  ⟨min n (tapeLength - 1), by have := tapeLength_pos; omega⟩

def moveTo (t : Tape) (n : Nat) : Tape := { t with cursor := cellNumber n }

/-- Moves the cursor by an amount, stopping at either end. -/
def move (t : Tape) (amount : Int) : Tape := { t with cursor := cellNumber (t.cursor + amount).toNat }

/-- The cell at an offset from the cursor, if it is on the tape. -/
def index? (t : Tape) (offset : Int) : Option (Fin tapeLength) :=
  if h : 0 ≤ t.cursor + offset ∧ (t.cursor + offset).toNat < tapeLength then
    some ⟨(t.cursor + offset).toNat, h.2⟩
  else none

def current (t : Tape) : UInt8 := t.cells.get t.cursor

def put (t : Tape) (i : Fin tapeLength) (value : UInt8) : Tape :=
  { t with cells := t.cells.set i.val value i.isLt }

def setCurrent (t : Tape) (value : UInt8) : Tape :=
  let i := t.cursor
  t.put i value

def get (t : Tape) (offset : Int) : UInt8 :=
  match t.index? offset with
  | some i => t.cells.get i
  | none => 0

def set (t : Tape) (offset : Int) (value : UInt8) : Tape :=
  match t.index? offset with
  | some i => t.put i value
  | none => t

def add (t : Tape) (offset : Int) (delta : UInt8) : Tape :=
  match t.index? offset with
  | some i =>
    let value := t.cells.get i + delta
    t.put i value
  | none => t

@[simp] theorem cursor_put (t : Tape) (i : Fin tapeLength) (value : UInt8) : (t.put i value).cursor = t.cursor := rfl

@[simp] theorem cursor_set (t : Tape) (offset : Int) (value : UInt8) : (t.set offset value).cursor = t.cursor := by
  unfold set
  split <;> rfl

@[simp] theorem cursor_add (t : Tape) (offset : Int) (delta : UInt8) : (t.add offset delta).cursor = t.cursor := by
  unfold add
  split <;> rfl

@[simp] theorem cursor_setCurrent (t : Tape) (value : UInt8) : (t.setCurrent value).cursor = t.cursor := rfl

theorem get_put (t : Tape) (i j : Fin tapeLength) (value : UInt8) :
    (t.put i value).cells.get j = if i = j then value else t.cells.get j := by
  simp only [put, Vector.get, Fin.ext_iff]
  exact Vector.getElem_set i.isLt j.isLt

@[simp] theorem current_setCurrent (t : Tape) (value : UInt8) : (t.setCurrent value).current = value := by
  simp only [current, setCurrent, cursor_put, get_put, if_true]

/-- The cell under the cursor is the cell at offset zero. -/
theorem index?_zero (t : Tape) : t.index? 0 = some t.cursor := by
  have h := t.cursor.isLt
  have hc : 0 ≤ (t.cursor : Int) + 0 ∧ ((t.cursor : Int) + 0).toNat < tapeLength := by omega
  rw [index?, dif_pos hc]
  exact congrArg some (Fin.ext (by simp))

theorem get_zero (t : Tape) : t.get 0 = t.current := by
  rw [get, index?_zero, current]

/-- Writes a value to the cells from index `i` up to `j`, not included. -/
def fill (t : Tape) (i j : Nat) (value : UInt8) : Tape :=
  (List.range' i (j - i)).foldl (fun t k => if h : k < tapeLength then t.put ⟨k, h⟩ value else t) t

/-- The cells that are not zero, as pairs of index and value, from the left. -/
def marked (t : Tape) : List (Nat × UInt8) :=
  (List.range tapeLength).filterMap fun i =>
    let value := t.cells[i]?.getD 0
    if value = 0 then none else some (i, value)

end Tape

end TapeLang
