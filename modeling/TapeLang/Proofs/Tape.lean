import Mathlib.Logic.Function.Basic
import TapeLang.Tape

/-!
# The tape, seen from the cursor

Two tapes with the same cursor are equal if they have the same cell at every offset (`ext_get`), so what an operation
does is said by the cells that can be read after it.  Adds commute with each other (`add_comm`), and with a move that
stays on the tape (`add_move`).  Where the cursor goes to and fro, the tape is seen from one cell instead
(`Tape.Shows`).
-/

namespace TapeLang

theorem repeat_shift {α : Type} (g : α → α) (n : Nat) (a : α) : Nat.repeat g n (g a) = g (Nat.repeat g n a) := by
  induction n with
  | zero => rfl
  | succ n ih => rw [Nat.repeat, ih, Nat.repeat]

/-- There is a cell with this index. -/
def OnTape (i : Int) : Prop := 0 ≤ i ∧ i < tapeLength

instance (i : Int) : Decidable (OnTape i) := inferInstanceAs (Decidable (_ ∧ _))

namespace Tape

variable {t t' : Tape}

theorem onTape_cursor (t : Tape) : OnTape t.cursor := by
  have := t.cursor.isLt
  exact ⟨by omega, by omega⟩

theorem exists_index {i : Int} (h : OnTape i) : ∃ j : Fin tapeLength, (j : Int) = i := by
  obtain ⟨h₁, h₂⟩ := h
  exact ⟨⟨i.toNat, by omega⟩, Int.toNat_of_nonneg h₁⟩

theorem onTape_index (j : Fin tapeLength) : OnTape j := by
  have := j.isLt
  exact ⟨by omega, by omega⟩

theorem index?_eq_some_iff {o : Int} {i : Fin tapeLength} : t.index? o = some i ↔ (i : Int) = t.cursor + o := by
  have := i.isLt
  unfold index?
  split
  · next h =>
    rw [Option.some.injEq, Fin.ext_iff]
    simp only
    omega
  · next h =>
    constructor
    · intro h'
      cases h'
    · intro h'
      exact absurd ⟨by omega, by omega⟩ h

theorem index?_eq_none {o : Int} (h : ¬ OnTape (t.cursor + o)) : t.index? o = none := by
  cases hi : t.index? o with
  | none => rfl
  | some i =>
    rw [← index?_eq_some_iff.1 hi] at h
    exact absurd (onTape_index i) h

/-! ### Reading -/

theorem get_of_index {o : Int} {i : Fin tapeLength} (h : (i : Int) = t.cursor + o) : t.get o = t.cells.get i := by
  rw [get, index?_eq_some_iff.2 h]

theorem get_of_not_onTape {o : Int} (h : ¬ OnTape (t.cursor + o)) : t.get o = 0 := by
  rw [get, index?_eq_none h]

theorem get_blank (o : Int) : blank.get o = 0 := by
  unfold get
  split
  · simp [blank, Vector.get]
  · rfl

/-- A tape is known by its cursor and by what can be read from there. -/
theorem ext_get (hc : t.cursor = t'.cursor) (h : ∀ o, t.get o = t'.get o) : t = t' := by
  rcases t with ⟨cells, cursor⟩
  rcases t' with ⟨cells', cursor'⟩
  obtain rfl : cursor = cursor' := hc
  congr
  apply Vector.ext
  intro i hi
  have hi' : ((⟨i, hi⟩ : Fin tapeLength) : Int) = cursor + (i - cursor) := by
    simp only
    omega
  have hg := h (i - cursor)
  rw [get_of_index hi', get_of_index hi'] at hg
  exact hg

/-! ### Writing -/

theorem get_put_of_index (t : Tape) (i : Fin tapeLength) (v : UInt8) (o : Int) :
    (t.put i v).get o = if (i : Int) = t.cursor + o then v else t.get o := by
  by_cases h : OnTape (t.cursor + o)
  · obtain ⟨j, hj⟩ := exists_index h
    rw [get_of_index (t := t.put i v) hj, get_of_index hj, get_put, ← hj]
    simp only [Fin.ext_iff, Int.natCast_inj]
  · rw [get_of_not_onTape h, get_of_not_onTape (t := t.put i v) h, if_neg]
    intro hi
    exact h (hi ▸ onTape_index i)

theorem get_set (t : Tape) (o : Int) (v : UInt8) (o' : Int) :
    (t.set o v).get o' = if o' = o ∧ OnTape (t.cursor + o) then v else t.get o' := by
  by_cases h : OnTape (t.cursor + o)
  · obtain ⟨j, hj⟩ := exists_index h
    rw [set, index?_eq_some_iff.2 hj]
    simp only [get_put_of_index, hj, h, and_true]
    congr 1
    exact propext ⟨by omega, by omega⟩
  · rw [set, index?_eq_none h]
    simp [h]

theorem set_of_get {o : Int} {v : UInt8} (h : t.get o = v) : t.set o v = t := by
  apply ext_get (cursor_set ..)
  intro o'
  rw [get_set]
  split
  · next h' => rw [h'.1, h]
  · rfl

theorem get_add (t : Tape) (o : Int) (d : UInt8) (o' : Int) :
    (t.add o d).get o' = if o' = o ∧ OnTape (t.cursor + o) then t.get o' + d else t.get o' := by
  by_cases h : OnTape (t.cursor + o)
  · obtain ⟨j, hj⟩ := exists_index h
    rw [add, index?_eq_some_iff.2 hj]
    simp only [get_put_of_index, h, and_true]
    by_cases ho : o' = o
    · rw [if_pos (by omega), if_pos ho, ho, get_of_index hj]
    · rw [if_neg (by omega), if_neg ho]
  · rw [add, index?_eq_none h]
    simp [h]

theorem get_setCurrent (t : Tape) (v : UInt8) (o : Int) : (t.setCurrent v).get o = if o = 0 then v else t.get o := by
  simp only [setCurrent, get_put_of_index]
  congr 1
  exact propext ⟨by omega, by omega⟩

theorem setCurrent_eq_set (t : Tape) (v : UInt8) : t.setCurrent v = t.set 0 v := by
  rw [set, index?_zero]
  rfl

/-! ### Moving -/

theorem cursor_move {a : Int} (h : OnTape (t.cursor + a)) : ((t.move a).cursor : Int) = t.cursor + a := by
  obtain ⟨h₁, h₂⟩ := h
  simp only [move, cellNumber]
  omega

theorem get_move {a : Int} (h : OnTape (t.cursor + a)) (o : Int) : (t.move a).get o = t.get (a + o) := by
  by_cases ho : OnTape (t.cursor + (a + o))
  · obtain ⟨j, hj⟩ := exists_index ho
    rw [get_of_index hj, get_of_index (t := t.move a) (i := j)]
    · rfl
    · rw [cursor_move h, hj, Int.add_assoc]
  · rw [get_of_not_onTape ho, get_of_not_onTape]
    rw [cursor_move h, Int.add_assoc]
    exact ho

theorem cursor_ext {i j : Fin tapeLength} (h : (i : Int) = j) : i = j := by
  rw [Fin.ext_iff]
  omega

theorem move_zero (t : Tape) : t.move 0 = t := by
  have h : OnTape (t.cursor + 0) := by
    rw [Int.add_zero]
    exact t.onTape_cursor
  apply ext_get
  · exact cursor_ext (by rw [cursor_move h, Int.add_zero])
  · intro o
    rw [get_move h, Int.zero_add]

/-- Two moves are one, if the cursor does not leave the tape in between. -/
theorem move_move {a b : Int} (h : OnTape (t.cursor + a)) : (t.move a).move b = t.move (a + b) := by
  show (⟨t.cells, _⟩ : Tape) = ⟨t.cells, _⟩
  rw [cursor_move h, Int.add_assoc]

/-- Two moves the same way are one, also at an end of the tape. -/
theorem move_move_of_same_way {a b : Int} (h : 0 ≤ a ∧ 0 ≤ b ∨ a ≤ 0 ∧ b ≤ 0) :
    (t.move a).move b = t.move (a + b) := by
  have := t.cursor.isLt
  show (⟨t.cells, _⟩ : Tape) = ⟨t.cells, _⟩
  congr 1
  apply Fin.ext
  simp only [move, cellNumber]
  omega

/-! ### Adding -/

theorem add_zero (t : Tape) (o : Int) : t.add o 0 = t := by
  apply ext_get (cursor_add ..)
  intro o'
  rw [get_add, UInt8.add_zero, ite_self]

theorem add_zero_eq_setCurrent (t : Tape) (d : UInt8) : t.add 0 d = t.setCurrent (t.current + d) := by
  rw [add, index?_zero]
  rfl

theorem add_comm (t : Tape) (o o' : Int) (d d' : UInt8) : (t.add o d).add o' d' = (t.add o' d').add o d := by
  apply ext_get (by simp only [cursor_add])
  intro k
  simp only [get_add, cursor_add]
  split <;> split <;> grind

theorem add_add (t : Tape) (o : Int) (d d' : UInt8) : (t.add o d).add o d' = t.add o (d + d') := by
  apply ext_get (by simp only [cursor_add])
  intro k
  simp only [get_add, cursor_add]
  split <;> grind

/-- An add after a move is an add before it. -/
theorem add_move {a : Int} (h : OnTape (t.cursor + a)) (o : Int) (d : UInt8) :
    (t.move a).add o d = (t.add (a + o) d).move a := by
  have h' : OnTape ((t.add (a + o) d).cursor + a) := by
    rw [cursor_add]
    exact h
  apply ext_get
  · apply cursor_ext
    rw [cursor_add, cursor_move h, cursor_move h', cursor_add]
  · intro k
    rw [get_add, get_move h, get_move h', get_add, cursor_move h, Int.add_assoc]
    simp only [Int.add_right_inj]

theorem current_add_of_ne {o : Int} (h : o ≠ 0) (t : Tape) (d : UInt8) : (t.add o d).current = t.current := by
  rw [← get_zero, ← get_zero, get_add, if_neg]
  omega

theorem current_add_zero (t : Tape) (d : UInt8) : (t.add 0 d).current = t.current + d := by
  rw [← get_zero, ← get_zero, get_add, Int.add_zero, if_pos ⟨rfl, t.onTape_cursor⟩]

/-! ### Seen from a fixed cell -/

/-- The cell with the given index, counted from the left end. -/
def cell (t : Tape) (i : Int) : UInt8 := t.get (i - t.cursor)

theorem get_eq_cell (t : Tape) (o : Int) : t.get o = t.cell (t.cursor + o) :=
  congrArg t.get (by omega)

theorem cell_move (t : Tape) (a i : Int) : (t.move a).cell i = t.cell i := by
  by_cases on : OnTape i
  · obtain ⟨j, hj⟩ := exists_index on
    have h (u : Tape) : (j : Int) = u.cursor + (i - u.cursor) := by omega
    rw [cell, cell, get_of_index (h _), get_of_index (h _)]
    rfl
  · have h (u : Tape) : ¬ OnTape (u.cursor + (i - u.cursor)) := by
      rw [show (u.cursor : Int) + (i - u.cursor) = i by omega]
      exact on
    rw [cell, cell, get_of_not_onTape (h _), get_of_not_onTape (h _)]

/-- Seen from the cell with index `c`, the cursor is at offset `k` and the cells are those of `f`.  A move then
changes `k` only. -/
structure Shows (c k : Int) (f : Int → UInt8) (t : Tape) : Prop where
  cursor : (t.cursor : Int) = c + k
  cells : ∀ j, t.cell (c + j) = f j

theorem shows_self (t : Tape) : t.Shows t.cursor 0 t.get :=
  ⟨(Int.add_zero _).symm, fun j => (t.get_eq_cell j).symm⟩

namespace Shows

variable {c k l o a : Int} {f : Int → UInt8}

theorem unique (h : t.Shows c k f) (h' : t'.Shows c k f) : t = t' := by
  apply ext_get (cursor_ext (h.cursor.trans h'.cursor.symm))
  intro o
  rw [get_eq_cell, get_eq_cell, h.cursor, h'.cursor, Int.add_assoc, h.cells, h'.cells]

theorem get (h : t.Shows c k f) (o : Int) : t.get o = f (k + o) := by
  rw [get_eq_cell, h.cursor, Int.add_assoc, h.cells]

theorem current (h : t.Shows c k f) : t.current = f k := by
  rw [← get_zero, h.get, Int.add_zero]

theorem move (h : t.Shows c k f) (hl : k + a = l) (on : OnTape (c + l)) : (t.move a).Shows c l f := by
  refine ⟨?_, fun j => (cell_move ..).trans (h.cells j)⟩
  rw [cursor_move] <;> rw [h.cursor, Int.add_assoc, hl]
  exact on

theorem set (h : t.Shows c k f) (hl : k + o = l) (on : OnTape (c + l)) (v : UInt8) :
    (t.set o v).Shows c k (Function.update f l v) := by
  refine ⟨by rw [cursor_set, h.cursor], fun j => ?_⟩
  have hj : j = l ↔ c + j - t.cursor = o := by
    rw [h.cursor]
    omega
  have on' : OnTape (t.cursor + o) := by
    rw [h.cursor, Int.add_assoc, hl]
    exact on
  have e : t.get (c + j - t.cursor) = f j := h.cells j
  rw [cell, cursor_set, get_set, e, Function.update_apply]
  simp only [hj, on', and_true]

theorem setCurrent (h : t.Shows c k f) (v : UInt8) : (t.setCurrent v).Shows c k (Function.update f k v) := by
  rw [setCurrent_eq_set]
  apply h.set (Int.add_zero k)
  rw [← h.cursor]
  exact t.onTape_cursor

theorem add (h : t.Shows c k f) (hl : k + o = l) (on : OnTape (c + l)) (d : UInt8) :
    (t.add o d).Shows c k (Function.update f l (f l + d)) := by
  have e : t.add o d = t.set o (f l + d) := by
    apply ext_get (by rw [cursor_add, cursor_set])
    intro o'
    rw [get_add, get_set]
    split
    · next h' => rw [h'.1, h.get, hl]
    · rfl
  rw [e]
  exact h.set hl on _

end Shows

/-- The cursor goes from the first cell of the blank tape to the one with index `c`. -/
theorem shows_blank_move {c : Int} (on : OnTape c) : (blank.move c).Shows c 0 fun _ => 0 := by
  have start : blank.Shows c (-c) fun _ => 0 := ⟨(Int.add_right_neg c).symm, fun _ => get_blank _⟩
  refine start.move (Int.add_left_neg c) ?_
  rw [Int.add_zero]
  exact on

end Tape

end TapeLang
