import Mathlib.Algebra.Group.Nat.Defs
import TapeLang.Lowering
import TapeLang.Proofs.CountingLoops

/-!
# Products, powers and their loops

The loop `[>[>+>+<<-]>>[<<+>>-]<<<-]` adds to `c2` what the product of `c0` and `c1` is, up to what `c3` held before
(`multiplication_loop_multiplies`).  The loop `[>>[>+<-]>[<<[>+>>+<<<-]>>>[<<<+>>>-]<-]<<<-]` multiplies `c2` by `c1`
as often as `c0` says, if `c3` and `c4` are clear (`power_loop_raises`).  Whichever loops in them are brought into
closed form, and if the whole is replaced by one instruction, the tape that is left is the same.

Taken symbol by symbol the inner loops carry a cell over to another one or spread it over two.  They do what their
closed forms do, so the passes of the outer loops are those that are known already.
-/

namespace TapeLang

open Function (update)

/-- `[>[>+>+<<-]>>[<<+>>-]<<<-]` -/
def Idiom.multiplicationLoop : List UInt8 := spelling (.opening :: multiplyBody ++ [.closing])

/-- `[>>[>+<-]>[<<[>+>>+<<<-]>>>[<<<+>>>-]<-]<<<-]` -/
def Idiom.powerLoop : List UInt8 := spelling (.opening :: exponentBody ++ [.closing])

namespace Program

variable {c k l l' : Int} {f : Int → UInt8}

/-! ### The loops, symbol by symbol -/

/-- `[>+<-]`, for any way to the other cell and back. -/
def carryLoop (away back : Int32) : Instruction := .loop [.move away, .add 1 0, .move back, .add (-1) 0]

/-- `[>+>+<<-]`, for any way to the first cell, on to the second and back. -/
def spreadLoop (first second back : Int32) : Instruction :=
  .loop [.move first, .add 1 0, .move second, .add 1 0, .move back, .add (-1) 0]

/-- One pass over `>[>+>+<<-]>>[<<+>>-]<<<-`, symbol by symbol. -/
def literalMultiply : Program :=
  [.move 1, spreadLoop 1 1 (-2), .move 2, carryLoop (-2) 2, .move (-3), .add (-1) 0]

/-- One pass over `<<[>+>>+<<<-]>>>[<<<+>>>-]<-`, symbol by symbol. -/
def literalProduct : Program :=
  [.move (-2), spreadLoop 1 2 (-3), .move 3, carryLoop (-3) 3, .move (-1), .add (-1) 0]

/-- One pass over `>>[>+<-]>[<<[>+>>+<<<-]>>>[<<<+>>>-]<-]<<<-`, symbol by symbol. -/
def literalExponent : Program :=
  [.move 2, carryLoop 1 (-1), .move 1, .loop literalProduct, .move (-3), .add (-1) 0]

theorem takes_carryLoop {away back : Int32} (there : k + away.toInt = l) (home : l + back.toInt = k)
    (on : OnTape (c + k)) (on' : OnTape (c + l)) (ne : l ≠ k) :
    Takes [carryLoop away back] c k f k (update (update f l (f l + f k)) k 0) := by
  refine takes_loop_of_transfer fun f => ?_
  refine ((takes_move there on').cons <| (takes_inc (Int.add_zero l) on').cons <| (takes_move home on).cons <|
    (takes_dec on).cons takes_nil).congr fun j => ?_
  rw [Function.update_of_ne ne.symm]

theorem takes_spreadLoop {first second back : Int32} (there : k + first.toInt = l) (further : l + second.toInt = l')
    (home : l' + back.toInt = k) (on : OnTape (c + k)) (on' : OnTape (c + l)) (on'' : OnTape (c + l')) (ne : l ≠ k)
    (ne' : l' ≠ k) (apart : l' ≠ l) :
    Takes [spreadLoop first second back] c k f k (update (update (update f l (f l + f k)) l' (f l' + f k)) k 0) := by
  refine takes_loop_of_copy fun f => ?_
  refine ((takes_move there on').cons <| (takes_inc (Int.add_zero l) on').cons <| (takes_move further on'').cons <|
    (takes_inc (Int.add_zero l') on'').cons <| (takes_move home on).cons <|
    (takes_dec on).cons takes_nil).congr fun j => ?_
  rw [Function.update_of_ne apart, Function.update_of_ne ne'.symm, Function.update_of_ne ne.symm]

theorem takes_literalMultiply (on : OnTape c) (on₃ : OnTape (c + 3)) :
    Takes literalMultiply c 0 f 0 (multipliedOnce f) := by
  have on₁ : OnTape (c + 1) := on.between on₃ (by decide) (by decide)
  have on₂ : OnTape (c + 2) := on.between on₃ (by decide) (by decide)
  refine takes_multiplyPass_of on on₃ (fun f => ?_) (fun f => ?_)
  · exact takes_spreadLoop rfl rfl rfl on₁ on₂ on₃ (by decide) (by decide) (by decide)
  · exact takes_carryLoop rfl rfl on₃ on₁ (by decide)

theorem takes_literalProduct (on : OnTape c) (on₄ : OnTape (c + 4)) (clear : f 4 = 0) :
    Takes literalProduct c 3 f 3 (update (update f 2 (f 2 + f 1)) 3 (f 3 - 1)) := by
  have on₁ : OnTape (c + 1) := on.between on₄ (by decide) (by decide)
  have on₂ : OnTape (c + 2) := on.between on₄ (by decide) (by decide)
  refine takes_productPass_of on on₄ clear (fun f => ?_) (fun f => ?_)
  · exact takes_spreadLoop rfl rfl rfl on₁ on₂ on₄ (by decide) (by decide) (by decide)
  · exact takes_carryLoop rfl rfl on₄ on₁ (by decide)

theorem takes_literalExponent (on : OnTape c) (on₃ : OnTape (c + 3)) (h : Raisable c f) :
    Takes literalExponent c 0 f 0 (raisedOnce f) := by
  have on₂ : OnTape (c + 2) := on.between on₃ (by decide) (by decide)
  refine takes_exponentPass_of on on₃ h (fun f => ?_) (fun f clear on₄ => ?_)
  · exact takes_carryLoop rfl rfl on₂ on₃ (by decide)
  · exact takes_product clear fun nonzero _ => takes_literalProduct on (on₄ nonzero)

/-! ### What the loops are translated to -/

theorem ofSource_multiplicationLoop (o : Optimizations) :
    Program.ofSource o Idiom.multiplicationLoop = .ok [if o.idioms then .closed .multiply
      else if o.closedForms then .loop multiplyPass else .loop literalMultiply] := by
  rcases o with ⟨idioms, closedForms⟩
  cases idioms <;> cases closedForms <;> rfl

theorem ofSource_powerLoop (o : Optimizations) :
    Program.ofSource o Idiom.powerLoop = .ok [if o.idioms then .closed .exponent
      else if o.closedForms then .loop exponentPass else .loop literalExponent] := by
  rcases o with ⟨idioms, closedForms⟩
  cases idioms <;> cases closedForms <;> rfl

variable {m : Machine}

theorem leavesTape_multiply (on₃ : OnTape (m.tape.cursor + 3)) (input : List UInt8) (o : Optimizations) :
    ∃ p, Program.ofSource o Idiom.multiplicationLoop = .ok p ∧ p.LeavesTape m input m.tape.multiply := by
  refine ⟨_, ofSource_multiplicationLoop o, leavesTape_of_runs ?_⟩
  split
  · exact .plain rfl .done
  · split
    · exact runs_multiply on₃ _
    · exact runs_multiply_of on₃ (fun _ => takes_literalMultiply m.tape.onTape_cursor on₃) _

theorem leavesTape_exponent (on₃ : OnTape (m.tape.cursor + 3))
    (h : m.tape.current ≠ 0 → Raisable m.tape.cursor m.tape.get) (input : List UInt8) (o : Optimizations) :
    ∃ p, Program.ofSource o Idiom.powerLoop = .ok p ∧ p.LeavesTape m input m.tape.exponent := by
  refine ⟨_, ofSource_powerLoop o, leavesTape_of_runs ?_⟩
  split
  · exact .plain rfl .done
  · split
    · exact runs_exponent on₃ h _
    · exact runs_exponent_of on₃ h (fun _ h => takes_literalExponent m.tape.onTape_cursor on₃ h) _

end Program

/-! ### Products -/

/-- The second tape is the first one after the multiplication of `c0` and `c1`, in which `c3` counts for `c1` from the
second time on. -/
structure Tape.Product (t t' : Tape) : Prop where
  cursor : t'.cursor = t.cursor
  counter : t'.get 0 = 0
  factor : (t'.get 1).toNat = ((t.get 1).toNat + (t.get 3).toNat) % 256
  product : (t'.get 2).toNat = ((t.get 2).toNat + (t.get 1).toNat
    + ((t.get 0).toNat - 1) * ((t.get 1).toNat + (t.get 3).toNat)) % 256
  scratch : t'.get 3 = 0
  others : ∀ o, o ≠ 0 → o ≠ 1 → o ≠ 2 → o ≠ 3 → t'.get o = t.get o

theorem toNat_sub_one {x : UInt8} (h : x ≠ 0) : (x - 1).toNat = x.toNat - 1 :=
  (Nat.sub_eq_of_eq_add (toNat_pred h).symm).symm

theorem Tape.product_multiply {t : Tape} (on₃ : OnTape (t.cursor + 3)) (nonzero : t.get 0 ≠ 0) :
    t.Product t.multiply := by
  have shows := Program.shows_multiply on₃
  have get (o : Int) : t.multiply.get o = update (update (update (update t.get 1 (t.get 1 + t.get 3)) 2
      (t.get 2 + t.get 1 + (t.get 0 - 1) * (t.get 1 + t.get 3))) 3 0) 0 0 o := by
    rw [shows.get, Int.zero_add, Program.multiplied, if_neg nonzero]
  refine ⟨cursor_ext (shows.cursor.trans (Int.add_zero _)), ?_, ?_, ?_, ?_, fun o h₀ h₁ h₂ h₃ => ?_⟩
  all_goals rw [get]
  · rfl
  · exact UInt8.toNat_add ..
  · show (t.get 2 + t.get 1 + (t.get 0 - 1) * (t.get 1 + t.get 3)).toNat = _
    simp only [UInt8.toNat_add, UInt8.toNat_mul, toNat_sub_one nonzero]
    simp [Nat.add_mod, Nat.mul_mod]
  · rfl
  · simp only [Function.update_apply, h₀, h₁, h₂, h₃, if_false]

/-- However the loop is translated, it leaves what the instruction leaves: on a zero the tape as it was, and otherwise
the product. -/
theorem multiplication_loop_multiplies (m : Machine) (input : List UInt8) (on₃ : OnTape (m.tape.cursor + 3)) :
    ∃ t, (∀ o, ∃ p, Program.ofSource o Idiom.multiplicationLoop = .ok p ∧ p.LeavesTape m input t) ∧
      Program.LeavesTape [.closed .multiply] m input t ∧
      (m.tape.get 0 = 0 → t = m.tape) ∧ (m.tape.get 0 ≠ 0 → m.tape.Product t) := by
  refine ⟨m.tape.multiply, Program.leavesTape_multiply on₃ input, Program.leavesTape_of_runs (.plain rfl .done), ?_,
    m.tape.product_multiply on₃⟩
  intro zero
  exact Tape.multiply_of_zero (m.tape.get_zero.symm.trans zero)

/-- Three times 200, with 100 in the scratch cell, which is the last of the tape. -/
private def factorsAtEnd : Tape := ((((Tape.blank.move 29996).set 0 3).set 1 200).set 2 7).set 3 100

private theorem shows_factorsAtEnd :
    factorsAtEnd.Shows 29996 0 (update (update (update (update (fun _ => 0) 0 3) 1 200) 2 7) 3 100) := by
  have moved := Tape.shows_blank_move (c := 29996) (by decide)
  exact (((moved.set (o := 0) rfl (by decide) 3).set (o := 1) rfl (by decide) 200).set (o := 2) rfl (by decide) 7).set
    (o := 3) rfl (by decide) 100

/-- Both the sum of the factors and the product go beyond 255. -/
theorem multiplication_wraps_at_end_of_tape :
    OnTape (factorsAtEnd.cursor + 3) ∧
      ∃ t, (∀ o, ∃ p, Program.ofSource o Idiom.multiplicationLoop = .ok p ∧
          p.LeavesTape ⟨factorsAtEnd, .zero⟩ [] t) ∧
        Program.LeavesTape [.closed .multiply] ⟨factorsAtEnd, .zero⟩ [] t ∧
        (t.get 1).toNat = (200 + 100) % 256 ∧ (t.get 2).toNat = (7 + 200 + 2 * (200 + 100)) % 256 ∧ t.get 3 = 0 := by
  have shows := shows_factorsAtEnd
  have on₃ : OnTape (factorsAtEnd.cursor + 3) := by
    rw [shows.cursor]
    decide
  obtain ⟨t, translated, instruction, -, product⟩ := multiplication_loop_multiplies ⟨factorsAtEnd, .zero⟩ [] on₃
  obtain ⟨-, -, factor, product, scratch, -⟩ := product (by
    rw [shows.get]
    decide)
  simp only [shows.get] at factor product
  exact ⟨on₃, t, translated, instruction, factor, product, scratch⟩

/-! ### Powers -/

/-- The second tape is the first one after `c2` has been multiplied by the power of `c1` with exponent `c0`. -/
structure Tape.Power (t t' : Tape) : Prop where
  cursor : t'.cursor = t.cursor
  counter : t'.get 0 = 0
  base : t'.get 1 = t.get 1
  power : (t'.get 2).toNat = (t.get 2).toNat * (t.get 1).toNat ^ (t.get 0).toNat % 256
  scratch₃ : t'.get 3 = 0
  scratch₄ : t'.get 4 = 0
  others : ∀ o, o ≠ 0 → o ≠ 1 → o ≠ 2 → o ≠ 3 → o ≠ 4 → t'.get o = t.get o

theorem toNat_repeat_mul (b r : UInt8) (n : Nat) :
    (Nat.repeat (· * b) n r).toNat = r.toNat * b.toNat ^ n % 256 := by
  induction n with
  | zero => rw [Nat.repeat, Nat.pow_zero, Nat.mul_one, Nat.mod_eq_of_lt r.toNat_lt]
  | succ n ih => rw [Nat.repeat, UInt8.toNat_mul, ih, Nat.mod_mul_mod, Nat.pow_succ, Nat.mul_assoc]

theorem Tape.power_exponent {t : Tape} (on₃ : OnTape (t.cursor + 3)) (h : Program.Raisable t.cursor t.get)
    (nonzero : t.current ≠ 0) : t.Power t.exponent := by
  have shows := Program.shows_exponent on₃ h nonzero
  have get (o : Int) : t.exponent.get o = Program.raised t.get o := by
    rw [shows.get, Int.zero_add]
  refine ⟨cursor_ext (shows.cursor.trans (Int.add_zero _)), ?_, ?_, ?_, ?_, ?_, fun o h₀ _ h₂ _ _ => ?_⟩
  all_goals rw [get]
  · rfl
  · rfl
  · exact toNat_repeat_mul ..
  · exact h.clear₃
  · exact h.clear₄
  · simp only [Program.raised, Function.update_apply, h₀, h₂, if_false]

/-- However the loop is translated, it leaves what the instruction leaves: on a zero the tape as it was, and
otherwise, if the scratch cells are clear, the power. -/
theorem power_loop_raises (m : Machine) (input : List UInt8) (on₄ : OnTape (m.tape.cursor + 4))
    (clear : m.tape.get 0 = 0 ∨ m.tape.get 3 = 0 ∧ m.tape.get 4 = 0) :
    ∃ t, (∀ o, ∃ p, Program.ofSource o Idiom.powerLoop = .ok p ∧ p.LeavesTape m input t) ∧
      Program.LeavesTape [.closed .exponent] m input t ∧
      (m.tape.get 0 = 0 → t = m.tape) ∧ (m.tape.get 0 ≠ 0 → m.tape.Power t) := by
  have on₃ : OnTape (m.tape.cursor + 3) := m.tape.onTape_cursor.between on₄ (by decide) (by decide)
  rw [m.tape.get_zero] at clear ⊢
  have raisable (nonzero : m.tape.current ≠ 0) : Program.Raisable m.tape.cursor m.tape.get := by
    obtain ⟨clear₃, clear₄⟩ := clear.resolve_left nonzero
    exact ⟨clear₃, clear₄, fun _ => on₄⟩
  exact ⟨m.tape.exponent, Program.leavesTape_exponent on₃ raisable input,
    Program.leavesTape_of_runs (.plain rfl .done), Tape.exponent_of_zero,
    fun nonzero => m.tape.power_exponent on₃ (raisable nonzero) nonzero⟩

/-- Three times the fifth power of seven; the second scratch cell is the last of the tape. -/
private def powerAtEnd : Tape := (((Tape.blank.move 29995).set 0 5).set 1 7).set 2 3

private theorem shows_powerAtEnd :
    powerAtEnd.Shows 29995 0 (update (update (update (fun _ => 0) 0 5) 1 7) 2 3) := by
  have moved := Tape.shows_blank_move (c := 29995) (by decide)
  exact ((moved.set (o := 0) rfl (by decide) 5).set (o := 1) rfl (by decide) 7).set (o := 2) rfl (by decide) 3

/-- The power goes beyond 255. -/
theorem power_wraps_at_end_of_tape :
    OnTape (powerAtEnd.cursor + 4) ∧ (powerAtEnd.get 0 = 0 ∨ powerAtEnd.get 3 = 0 ∧ powerAtEnd.get 4 = 0) ∧
      ∃ t, (∀ o, ∃ p, Program.ofSource o Idiom.powerLoop = .ok p ∧ p.LeavesTape ⟨powerAtEnd, .zero⟩ [] t) ∧
        Program.LeavesTape [.closed .exponent] ⟨powerAtEnd, .zero⟩ [] t ∧
        t.get 1 = 7 ∧ (t.get 2).toNat = 3 * 7 ^ 5 % 256 ∧ t.get 3 = 0 ∧ t.get 4 = 0 := by
  have shows := shows_powerAtEnd
  have on₄ : OnTape (powerAtEnd.cursor + 4) := by
    rw [shows.cursor]
    decide
  have clear : powerAtEnd.get 0 = 0 ∨ powerAtEnd.get 3 = 0 ∧ powerAtEnd.get 4 = 0 := by
    rw [shows.get, shows.get, shows.get]
    decide
  obtain ⟨t, translated, instruction, -, power⟩ := power_loop_raises ⟨powerAtEnd, .zero⟩ [] on₄ clear
  obtain ⟨-, -, base, power, scratch₃, scratch₄, -⟩ := power (by
    rw [shows.get]
    decide)
  simp only [shows.get] at base power
  exact ⟨on₄, clear, t, translated, instruction, base, power, scratch₃, scratch₄⟩

end TapeLang
