import TapeLang.Lowering
import TapeLang.Proofs.CountingLoops
import TapeLang.Proofs.Process

/-!
# Division and its loop

The loop `[->-[>+>>]>[+[-<+>]>+>>]<<<<<]` divides `c0` by `c1` if `c2` to `c4` are clear, and so does the instruction
that replaces it.  That the two leave the same takes more: the loop tests `c5` too, and it goes astray if the divisor
is one.  Then the first pass finds nothing to step over and comes out three cells to the left of where it started.
`division_loop_divides_iff` says that these are the only exceptions.
-/

namespace TapeLang

open Execution

open Function (update)

/-- `[->-[>+>>]>[+[-<+>]>+>>]<<<<<]` -/
def Idiom.divisionLoop : List UInt8 := spelling (.opening :: divideBody ++ [.closing])

namespace Program

variable {c k l : Int} {f : Int → UInt8}

/-! ### The loop, symbol by symbol -/

/-- One pass over `>+>>`, symbol by symbol. -/
def literalStep : Program := [.move 1, .add 1 0, .move 2]

/-- One pass over `+[-<+>]>+>>`, symbol by symbol. -/
def literalWrap : Program :=
  [.add 1 0, .loop [.add (-1) 0, .move (-1), .add 1 0, .move 1], .move 1, .add 1 0, .move 2]

/-- One pass over `->-[>+>>]>[+[-<+>]>+>>]<<<<<`, symbol by symbol. -/
def literalDivide : Program :=
  [.add (-1) 0, .move 1, .add (-1) 0, .loop literalStep, .move 1, .loop literalWrap, .move (-5)]

theorem ofSource_divisionLoop : Program.ofSource .none Idiom.divisionLoop = .ok [.loop literalDivide] := rfl

/-- A loop that takes one off the counter and adds one to another cell, again and again. -/
theorem takes_transferLoop {away back : Int32} (there : k + away.toInt = l) (home : l + back.toInt = k) (ne : l ≠ k)
    (on : OnTape (c + k)) (on' : OnTape (c + l)) :
    Takes [.loop [.add (-1) 0, .move away, .add 1 0, .move back]] c k f k (update (update f l (f l + f k)) k 0) := by
  refine takes_loop_of_transfer fun f => ?_
  refine ((takes_dec on).cons <| (takes_move there on').cons <| (takes_inc (Int.add_zero l) on').cons <|
    (takes_move home on).cons takes_nil).congr ?_
  intro j
  simp only [Function.update_apply]
  grind

theorem takes_literalStep (on₂ : OnTape (c + 2)) (on₄ : OnTape (c + 4)) (f : Int → UInt8) :
    Takes literalStep c 1 f 4 (update f 2 (f 2 + 1)) :=
  (takes_move (l := 2) rfl on₂).cons <| (takes_inc (l := 2) rfl on₂).cons <|
    (takes_move (l := 4) rfl on₄).cons takes_nil

theorem takes_literalWrap (left : OnTape (c + (k - 1))) (right : OnTape (c + (k + 3))) (f : Int → UInt8) :
    Takes literalWrap c k f (k + 3) (wrapped k f) := by
  have on : OnTape (c + k) := ⟨by have := left.1; omega, by have := right.2; omega⟩
  have on₁ : OnTape (c + (k + 1)) := ⟨by have := left.1; omega, by have := right.2; omega⟩
  have one : (1 : Int32).toInt = 1 := rfl
  have two : (2 : Int32).toInt = 2 := rfl
  have minus : (-1 : Int32).toInt = -1 := rfl
  refine ((takes_inc (Int.add_zero k) on).cons <|
    (takes_transferLoop (l := k - 1) (by omega) (by omega) (by omega) on left).cons <|
    (takes_move (l := k + 1) (by omega) on₁).cons <| (takes_inc (Int.add_zero _) on₁).cons <|
    (takes_move (l := k + 3) (by omega) right).cons takes_nil).congr ?_
  intro j
  simp only [wrapped, Function.update_apply]
  grind

theorem takes_literalDivide (on : OnTape c) (on₅ : OnTape (c + 5)) (divisor : f 1 ≠ 1) (clear₂ : f 2 = 0)
    (clear₄ : f 4 = 0) (clear₅ : f 5 = 0) :
    Takes [.loop literalDivide] c 0 f 0 (divided (Tape.divisor (f 1)) f) := by
  have on₁ : OnTape (c + 1) := on.between on₅ (by decide) (by decide)
  have on₂ : OnTape (c + 2) := on.between on₅ (by decide) (by decide)
  have on₄ : OnTape (c + 4) := on.between on₅ (by decide) (by decide)
  refine takes_divide divisor clear₂ clear₄ clear₅ fun f => ?_
  exact takes_dividePass_of on on₅ (takes_literalStep on₂ on₄) (takes_literalWrap (k := 2) on₁ on₅)

/-! ### Where the loop goes astray -/

/-- With a divisor of one neither of the inner loops is entered. -/
theorem takes_literalDivide_one (left : OnTape (c - 3)) (on₂ : OnTape (c + 2)) (counter : f 0 ≠ 0) (one : f 1 = 1)
    (clear₂ : f 2 = 0) (stop : f (-3) = 0) :
    Takes [.loop literalDivide] c 0 f (-3) (update (update f 0 (f 0 - 1)) 1 0) := by
  have on₀ : OnTape (c + 0) := ⟨by have := left.1; omega, by have := on₂.2; omega⟩
  have on₁ : OnTape (c + 1) := ⟨by have := left.1; omega, by have := on₂.2; omega⟩
  refine Takes.pass counter (((takes_dec on₀).cons <| (takes_move (l := 1) rfl on₁).cons <| (takes_dec on₁).cons <|
    (takes_loop_of_zero ?_).cons <| (takes_move (l := 2) rfl on₂).cons <| (takes_loop_of_zero ?_).cons <|
    (takes_move (l := -3) rfl left).cons takes_nil).congr ?_) (takes_loop_of_zero ?_)
  · simp [one]
  · simpa using clear₂
  · intro j
    simp only [Function.update_apply]
    grind
  · simpa using stop

/-- If `c5` is not clear, it is taken for a remainder that is complete. -/
theorem takes_literalDivide_behind (on : OnTape c) (on₈ : OnTape (c + 8)) (counter : f 0 ≠ 0) (divisor : f 1 ≠ 1)
    (clear₃ : f 3 = 0) (clear₄ : f 4 = 0) (behind : f 5 ≠ 0) (clear₈ : f 8 = 0) :
    ∃ f', Takes [.loop literalDivide] c 0 f 3 f' := by
  have on₀ : OnTape (c + 0) := on.between on₈ (by decide) (by decide)
  have on₁ : OnTape (c + 1) := on.between on₈ (by decide) (by decide)
  have on₂ : OnTape (c + 2) := on.between on₈ (by decide) (by decide)
  have on₃ : OnTape (c + 3) := on.between on₈ (by decide) (by decide)
  have on₄ : OnTape (c + 4) := on.between on₈ (by decide) (by decide)
  have on₅ : OnTape (c + 5) := on.between on₈ (by decide) (by decide)
  -- the first inner loop stops on `c4`, so the second one is entered on `c5`; it stops on `c8`
  refine ⟨_, Takes.pass counter ((takes_dec on₀).cons <| (takes_move (l := 1) rfl on₁).cons <| (takes_dec on₁).cons <|
    (Takes.pass ?_ (takes_literalStep on₂ on₄ _) (takes_loop_of_zero ?_)).cons <|
    (takes_move (l := 5) rfl on₅).cons <|
    (Takes.pass ?_ (takes_literalWrap (k := 5) on₄ on₈ _) (takes_loop_of_zero ?_)).cons <|
    (takes_move (l := 3) rfl on₃).cons takes_nil) (takes_loop_of_zero ?_)⟩
  · simp only [Function.update_apply]
    grind
  · simp only [Function.update_apply]
    grind
  · simp only [Function.update_apply]
    grind
  · simp only [wrapped, Function.update_apply]
    grind
  · simp only [wrapped, Function.update_apply]
    grind

end Program

/-! ### When the loop divides -/

/-- Around the cursor stand a dividend, a divisor, three clear cells and one more. -/
structure Tape.Operands (n d v : UInt8) (t : Tape) : Prop where
  dividend : t.get 0 = n
  divisor : t.get 1 = d
  clear₂ : t.get 2 = 0
  clear₃ : t.get 3 = 0
  clear₄ : t.get 4 = 0
  behind : t.get 5 = v

/-- The second tape is the first one after the division of `n` by `d`. -/
structure Tape.Quotient (n d : Nat) (t t' : Tape) : Prop where
  cursor : t'.cursor = t.cursor
  counter : t'.get 0 = 0
  missing : t'.get 1 = UInt8.ofNat (d - n % d)
  remainder : t'.get 2 = UInt8.ofNat (n % d)
  quotient : t'.get 3 = UInt8.ofNat (n / d)
  others : ∀ o, o ≠ 0 → o ≠ 1 → o ≠ 2 → o ≠ 3 → t'.get o = t.get o

/-- The loop and the instruction end with the same tape, on which the division has been made if there is anything to
divide. -/
def Divides (m : Machine) (input : List UInt8) (n d : UInt8) : Prop :=
  ∃ p t, Program.ofSource .none Idiom.divisionLoop = .ok p ∧ p.LeavesTape m input t ∧
    Program.LeavesTape [.closed .divide] m input t ∧
    (n = 0 → t = m.tape) ∧ (n ≠ 0 → m.tape.Quotient n.toNat (Tape.divisor d) t)

variable {n d v : UInt8} {m : Machine} {input : List UInt8}

theorem leavesTape_divide (m : Machine) (input : List UInt8) :
    Program.LeavesTape [.closed .divide] m input m.tape.divide :=
  Program.leavesTape_of_runs (.plain rfl .done)

theorem Tape.Operands.quotient {t : Tape} (h : t.Operands n d v) (on₅ : OnTape (t.cursor + 5)) (nonzero : n ≠ 0) :
    t.Quotient n.toNat (Tape.divisor d) t.divide := by
  have current : t.current ≠ 0 := by
    rw [← t.get_zero, h.dividend]
    exact nonzero
  have shows := Program.shows_divide on₅ h.clear₂ h.clear₃ current
  have zero : (0 : UInt8).toNat = 0 := rfl
  have get (o : Int) : t.divide.get o = Program.divided (Tape.divisor d) t.get o := by
    rw [shows.get, Int.zero_add, h.divisor]
  refine ⟨cursor_ext (shows.cursor.trans (Int.add_zero _)), ?_, ?_, ?_, ?_, fun o h₀ h₁ h₂ h₃ => ?_⟩
  all_goals
    rw [get]
    simp only [Program.divided, h.dividend, h.clear₂, h.clear₃, Function.update_apply, zero, Nat.zero_add]
    grind

theorem divides_of_clear (on₅ : OnTape (m.tape.cursor + 5)) (h : m.tape.Operands n d v)
    (clear : n ≠ 0 → d ≠ 1 ∧ v = 0) : Divides m input n d := by
  have current : m.tape.current = n := m.tape.get_zero.symm.trans h.dividend
  refine ⟨_, m.tape.divide, Program.ofSource_divisionLoop, ?_, leavesTape_divide m input, ?_, h.quotient on₅⟩
  · by_cases zero : n = 0
    · rw [Tape.divide_of_zero (current.trans zero)]
      exact Program.leavesTape_of_runs (Program.runs_loop_of_zero (current.trans zero))
    · obtain ⟨divisor, behind⟩ := clear zero
      have takes := Program.takes_literalDivide m.tape.onTape_cursor on₅ (h.divisor ▸ divisor) h.clear₂ h.clear₄
        (h.behind.trans behind)
      obtain ⟨t, shows, leaves⟩ := Program.leavesTape_of_takes m.tape.shows_self takes input
      rw [(Program.shows_divide on₅ h.clear₂ h.clear₃ (current ▸ zero)).unique shows]
      exact leaves
  · intro zero
    exact Tape.divide_of_zero (current.trans zero)

/-! ### The exceptions -/

/-- The given operands and nothing else. -/
def operandCells (n d v : UInt8) : Int → UInt8 := update (update (update (fun _ => 0) 0 n) 1 d) 5 v

/-- The given operands from the cell with index ten on, and the cursor there. -/
def Tape.ofOperands (n d v : UInt8) : Tape := (((blank.move 10).set 0 n).set 1 d).set 5 v

theorem Tape.shows_ofOperands (n d v : UInt8) : (ofOperands n d v).Shows 10 0 (operandCells n d v) := by
  have moved := shows_blank_move (c := 10) (by decide)
  exact ((moved.set (o := 0) rfl (by decide) n).set (o := 1) rfl (by decide) d).set (o := 5) rfl (by decide) v

theorem Tape.operands_ofOperands (n d v : UInt8) :
    OnTape ((ofOperands n d v).cursor + 5) ∧ (ofOperands n d v).Operands n d v := by
  have shows := shows_ofOperands n d v
  refine ⟨?_, ?_, ?_, ?_, ?_, ?_, ?_⟩
  · rw [shows.cursor]
    decide
  all_goals
    rw [shows.get]
    simp [operandCells]

/-- If the divisor is one, the loop ends three cells to the left. -/
theorem leavesTape_of_divisor_one (v : UInt8) (nonzero : n ≠ 0) (input : List UInt8) :
    ∃ t, t.Shows 10 (-3) (update (update (operandCells n 1 v) 0 (n - 1)) 1 0) ∧
      Program.LeavesTape [.loop Program.literalDivide] ⟨Tape.ofOperands n 1 v, .zero⟩ input t := by
  have counter : operandCells n 1 v 0 = n := by simp [operandCells]
  have takes := Program.takes_literalDivide_one (c := 10) (f := operandCells n 1 v) (by decide) (by decide)
    (counter ▸ nonzero) (by simp [operandCells]) (by simp [operandCells]) (by simp [operandCells])
  rw [counter] at takes
  exact Program.leavesTape_of_takes (m := ⟨_, .zero⟩) (Tape.shows_ofOperands n 1 v) takes input

/-- If the cell behind the scratch cells is not clear, the loop ends three cells to the right. -/
theorem leavesTape_of_behind (nonzero : n ≠ 0) (divisor : d ≠ 1) (behind : v ≠ 0) (input : List UInt8) :
    ∃ f t, t.Shows 10 3 f ∧
      Program.LeavesTape [.loop Program.literalDivide] ⟨Tape.ofOperands n d v, .zero⟩ input t := by
  obtain ⟨f, takes⟩ := Program.takes_literalDivide_behind (c := 10) (f := operandCells n d v) (by decide) (by decide)
    (by simpa [operandCells] using nonzero) (by simpa [operandCells] using divisor) (by simp [operandCells])
    (by simp [operandCells]) (by simpa [operandCells] using behind) (by simp [operandCells])
  exact ⟨f, Program.leavesTape_of_takes (m := ⟨_, .zero⟩) (Tape.shows_ofOperands n d v) takes input⟩

/-- In both cases the cursor is not where it was. -/
theorem astray_of_exception (nonzero : n ≠ 0) (exception : ¬ (d ≠ 1 ∧ v = 0)) (input : List UInt8) :
    ∃ t, Program.LeavesTape [.loop Program.literalDivide] ⟨Tape.ofOperands n d v, .zero⟩ input t ∧
      (t.cursor : Int) ≠ (Tape.ofOperands n d v).cursor := by
  rw [(Tape.shows_ofOperands n d v).cursor]
  by_cases one : d = 1
  · subst one
    obtain ⟨t, shows, leaves⟩ := leavesTape_of_divisor_one v nonzero input
    exact ⟨t, leaves, by rw [shows.cursor]; decide⟩
  · have behind : v ≠ 0 := fun clear => exception ⟨one, clear⟩
    obtain ⟨f, t, shows, leaves⟩ := leavesTape_of_behind nonzero one behind input
    exact ⟨t, leaves, by rw [shows.cursor]; decide⟩

/-- A dividend, a divisor and a cell behind the clear scratch cells are such that the loop divides wherever they
stand, and leaves what the instruction leaves, if and only if there is nothing to divide, or the divisor is not one
and the cell is clear too. -/
theorem division_loop_divides_iff (n d v : UInt8) :
    (∀ (m : Machine) (input : List UInt8), OnTape (m.tape.cursor + 5) → m.tape.Operands n d v → Divides m input n d)
      ↔ (n ≠ 0 → d ≠ 1 ∧ v = 0) := by
  constructor
  · intro divides nonzero
    by_contra exception
    obtain ⟨t, astray, away⟩ := astray_of_exception nonzero exception []
    obtain ⟨on₅, operands⟩ := Tape.operands_ofOperands n d v
    obtain ⟨p, t', literal, leaves, -, -, quotient⟩ := divides ⟨Tape.ofOperands n d v, .zero⟩ [] on₅ operands
    cases literal
    rw [astray.unique leaves, (quotient nonzero).cursor] at away
    exact away rfl
  · intro clear m input on₅ h
    exact divides_of_clear on₅ h clear

/-- Five divided by one: the instruction stays at its cell and leaves five in `c3`; the loop takes one off the five,
ends at the third cell to the left, and leaves `c3` clear. -/
theorem division_by_one_goes_astray :
    OnTape ((Tape.ofOperands 5 1 0).cursor + 5) ∧ (Tape.ofOperands 5 1 0).Operands 5 1 0 ∧
      ∃ p t t', Program.ofSource .none Idiom.divisionLoop = .ok p ∧
        p.LeavesTape ⟨Tape.ofOperands 5 1 0, .zero⟩ [] t ∧
        Program.LeavesTape [.closed .divide] ⟨Tape.ofOperands 5 1 0, .zero⟩ [] t' ∧
        (t.cursor : Int) = 7 ∧ t.cell 10 = 4 ∧ t.cell 13 = 0 ∧
        (t'.cursor : Int) = 10 ∧ t'.cell 10 = 0 ∧ t'.cell 13 = 5 := by
  obtain ⟨on₅, operands⟩ := Tape.operands_ofOperands 5 1 0
  have shows := Tape.shows_ofOperands 5 1 0
  obtain ⟨t, astray, leaves⟩ := leavesTape_of_divisor_one (n := 5) 0 (by decide) []
  have quotient := operands.quotient on₅ (by decide)
  have cursor : ((Tape.ofOperands 5 1 0).divide.cursor : Int) = 10 := by
    rw [quotient.cursor, shows.cursor]
    rfl
  refine ⟨on₅, operands, _, t, _, Program.ofSource_divisionLoop, leaves, leavesTape_divide _ [], ?_, ?_, ?_, cursor,
    ?_, ?_⟩
  · rw [astray.cursor]
    rfl
  · exact astray.cells 0
  · exact astray.cells 3
  · rw [Tape.cell, cursor]
    exact quotient.counter
  · rw [Tape.cell, cursor]
    exact quotient.quotient

end TapeLang
