import TapeLang.Proofs.ClosedForms

/-!
# Loops that multiply, raise to a power and divide

Three loops around other loops, whose inner loops are already in closed form.  `Program.Takes` says what a program
does to the cells near a fixed one.  Each of the loops takes one off its counter in every pass, so by
`takes_loop_of_pass` it is enough to know one pass and what stays true from pass to pass: the scratch cells are clear,
or the cells of the divisor and of the remainder add up.  What a pass does is said for any inner loops that do the
same (`takes_multiplyPass_of`, `takes_exponentPass_of`, `takes_dividePass_of`), and used for those in closed form.
-/

namespace TapeLang

open Function (update)

theorem OnTape.between {c k l : Int} (h : OnTape c) (h' : OnTape (c + l)) (hk : 0 ≤ k) (hl : k ≤ l) :
    OnTape (c + k) := by
  obtain ⟨h₁, h₂⟩ := h
  obtain ⟨h₃, h₄⟩ := h'
  exact ⟨by omega, by omega⟩

theorem toNat_pred {x : UInt8} (h : x ≠ 0) : (x - 1).toNat + 1 = x.toNat := by
  have pos : 0 < x.toNat := Nat.pos_of_ne_zero fun h' => h (UInt8.toNat.inj h')
  have one_le : 1 ≤ x := UInt8.le_iff_toNat_le.2 pos
  rw [UInt8.toNat_sub_of_le _ _ one_le]
  exact Nat.sub_add_cancel pos

theorem toNat_succ {x : UInt8} (h : x.toNat + 1 < 256) : (x + 1).toNat = x.toNat + 1 := by
  rw [UInt8.toNat_add]
  exact Nat.mod_eq_of_lt h

namespace Program

/-- Seen from the cell with index `c`, the program takes the cursor from `k` to `k'` and the cells from `f` to `f'`,
without input and output. -/
def Takes (p : Program) (c k : Int) (f : Int → UInt8) (k' : Int) (f' : Int → UInt8) : Prop :=
  ∀ (t : Tape) (io : Streams), t.Shows c k f → ∃ t', t'.Shows c k' f' ∧ Runs p ⟨t, io⟩ ⟨t', io⟩

variable {c k l k' k'' : Int} {f f' f'' : Int → UInt8} {rest body : Program}

theorem takes_nil : Takes [] c k f k f := fun t _ h => ⟨t, h, .done⟩

theorem Takes.cons {i : Instruction} (h : Takes [i] c k f k' f') (h' : Takes rest c k' f' k'' f'') :
    Takes (i :: rest) c k f k'' f'' := by
  intro t io ht
  obtain ⟨t', ht', first⟩ := h t io ht
  obtain ⟨t'', ht'', others⟩ := h' t' io ht'
  exact ⟨t'', ht'', first.append others⟩

theorem Takes.congr {p : Program} (h : Takes p c k f k' f') (e : ∀ j, f' j = f'' j) : Takes p c k f k' f'' := by
  obtain rfl : f' = f'' := funext e
  exact h

theorem takes_move {n : Int32} (hl : k + n.toInt = l) (on : OnTape (c + l)) : Takes [.move n] c k f l f :=
  fun t _ h => ⟨t.move n.toInt, h.move hl on, .plain rfl .done⟩

theorem takes_inc {o : Int8} (hl : k + o.toInt = l) (on : OnTape (c + l)) :
    Takes [.add 1 o] c k f k (update f l (f l + 1)) :=
  fun t _ h => ⟨t.add o.toInt 1, h.add hl on 1, .plain rfl .done⟩

theorem takes_dec (on : OnTape (c + k)) : Takes [.add (-1) 0] c k f k (update f k (f k - 1)) := by
  have e : f k - 1 = f k + 255 := by grind
  rw [e]
  exact fun t _ h => ⟨t.add 0 255, h.add (Int.add_zero k) on 255, .plain rfl .done⟩

/-- A transfer to one cell. -/
theorem takes_transferAdd {o : Int8} (hl : k + o.toInt = l) (on : OnTape (c + l)) :
    Takes [.closed (.transferAdd o)] c k f k (update (update f l (f l + f k)) k 0) := by
  intro t io h
  have e : t.transfer [(o, 1)] = (t.add o.toInt (1 * t.current)).setCurrent 0 := rfl
  rw [UInt8.one_mul, h.current] at e
  refine ⟨t.transfer [(o, 1)], ?_, .plain rfl .done⟩
  rw [e]
  exact (h.add hl on (f k)).setCurrent 0

/-- A transfer to two cells. -/
theorem takes_copy {o o' : Int8} {l' : Int} (hl : k + o.toInt = l) (on : OnTape (c + l)) (hl' : k + o'.toInt = l')
    (on' : OnTape (c + l')) (ne : l' ≠ l) :
    Takes [.closed (.weighted [(o, 1), (o', 1)])] c k f k
      (update (update (update f l (f l + f k)) l' (f l' + f k)) k 0) := by
  intro t io h
  have e : t.transfer [(o, 1), (o', 1)]
      = ((t.add o.toInt (1 * t.current)).add o'.toInt (1 * t.current)).setCurrent 0 := rfl
  rw [UInt8.one_mul, h.current] at e
  refine ⟨t.transfer [(o, 1), (o', 1)], ?_, .plain rfl .done⟩
  have h' := ((h.add hl on (f k)).add hl' on' (f k)).setCurrent 0
  rw [Function.update_of_ne ne] at h'
  rw [e]
  exact h'

/-- What a program takes the tape to is left by its execution. -/
theorem leavesTape_of_takes {p : Program} {m : Machine} (shows : m.tape.Shows c k f) (takes : p.Takes c k f k' f')
    (input : List UInt8) : ∃ t, t.Shows c k' f' ∧ p.LeavesTape m input t := by
  obtain ⟨t, shows', runs⟩ := takes m.tape (.ofInput input) shows
  exact ⟨t, shows', leavesTape_of_runs runs⟩

theorem takes_loop_of_zero (zero : f k = 0) : Takes [.loop body] c k f k f :=
  fun t _ h => ⟨t, h, runs_loop_of_zero (h.current.trans zero)⟩

theorem Takes.pass (nonzero : f k ≠ 0) (once : Takes body c k f k' f')
    (again : Takes [.loop body] c k' f' k'' f'') : Takes [.loop body] c k f k'' f'' := by
  intro t io h
  obtain ⟨t', h', runs⟩ := once t io h
  obtain ⟨t'', h'', runs'⟩ := again t' io h'
  refine ⟨t'', h'', .pass ?_ runs runs'⟩
  rw [h.current]
  exact nonzero

/-- If every pass takes one off the counter and does not change what is done in all, the loop does that. -/
theorem takes_loop_of_pass (P : (Int → UInt8) → Prop) (once total : (Int → UInt8) → Int → UInt8)
    (pass : ∀ f, P f → f k ≠ 0 → Takes body c k f k (once f))
    (keeps : ∀ f, P f → f k ≠ 0 → P (once f) ∧ once f k = f k - 1 ∧ total (once f) = total f)
    (stop : ∀ f, P f → f k = 0 → total f = f) (h : P f) : Takes [.loop body] c k f k (total f) := by
  induction n : (f k).toNat generalizing f with
  | zero =>
    have zero : f k = 0 := UInt8.toNat.inj n
    rw [stop f h zero]
    exact takes_loop_of_zero zero
  | succ m ih =>
    have nonzero : f k ≠ 0 := by
      intro zero
      rw [zero] at n
      cases n
    have pred := toNat_pred nonzero
    obtain ⟨h', counter, same⟩ := keeps f h nonzero
    rw [← same]
    refine (pass f h nonzero).pass nonzero (ih h' ?_)
    rw [counter]
    omega

/-- If every pass takes one off the counter and adds the same to each of the other cells, the loop adds as many times
that as the counter says. -/
theorem takes_loop_of_weights (w : Int → UInt8)
    (pass : ∀ f, Takes body c k f k fun j => if j = k then f k - 1 else f j + w j) :
    Takes [.loop body] c k f k fun j => if j = k then 0 else f j + w j * f k := by
  refine takes_loop_of_pass (fun _ => True) _ (fun f j => if j = k then 0 else f j + w j * f k)
    (fun f _ _ => pass f) ?_ ?_ trivial
  · intro f _ _
    refine ⟨trivial, if_pos rfl, ?_⟩
    funext j
    grind
  · intro f _ zero
    funext j
    grind

theorem takes_loop_of_transfer (pass : ∀ f, Takes body c k f k (update (update f l (f l + 1)) k (f k - 1))) :
    Takes [.loop body] c k f k (update (update f l (f l + f k)) k 0) := by
  refine (takes_loop_of_weights (fun j => if j = l then 1 else 0) fun f => (pass f).congr fun j => ?_).congr
    fun j => ?_
  · simp only [Function.update_apply]
    grind
  · simp only [Function.update_apply]
    grind

theorem takes_loop_of_copy {l' : Int}
    (pass : ∀ f, Takes body c k f k (update (update (update f l (f l + 1)) l' (f l' + 1)) k (f k - 1))) :
    Takes [.loop body] c k f k (update (update (update f l (f l + f k)) l' (f l' + f k)) k 0) := by
  refine (takes_loop_of_weights (fun j => if j = l ∨ j = l' then 1 else 0) fun f => (pass f).congr fun j => ?_).congr
    fun j => ?_
  · simp only [Function.update_apply]
    grind
  · simp only [Function.update_apply]
    grind

/-! ### Multiplication -/

/-- One pass over `>[>+>+<<-]>>[<<+>>-]<<<-`. -/
def multiplyPass : Program :=
  [.move 1, .closed (.weighted [(1, 1), (2, 1)]), .move 2, .closed (.transferAdd (-2)), .move (-3), .add (-1) 0]

/-- One pass adds `c1` to `c2`.  By way of `c3`, it comes back to `c1` together with what `c3` held. -/
def multipliedOnce (f : Int → UInt8) : Int → UInt8 :=
  update (update (update (update f 1 (f 1 + f 3)) 2 (f 2 + f 1)) 3 0) 0 (f 0 - 1)

/-- All passes together. -/
def multiplied (f : Int → UInt8) : Int → UInt8 :=
  if f 0 = 0 then f
  else update (update (update (update f 1 (f 1 + f 3)) 2 (f 2 + f 1 + (f 0 - 1) * (f 1 + f 3))) 3 0) 0 0

/-- One pass of the multiplication, for any inner loops that copy and carry back in the same way. -/
theorem takes_multiplyPass_of {copy back : Instruction} (on : OnTape c) (on₃ : OnTape (c + 3))
    (copying : ∀ f, Takes [copy] c 1 f 1 (update (update (update f 2 (f 2 + f 1)) 3 (f 3 + f 1)) 1 0))
    (returning : ∀ f, Takes [back] c 3 f 3 (update (update f 1 (f 1 + f 3)) 3 0)) :
    Takes [.move 1, copy, .move 2, back, .move (-3), .add (-1) 0] c 0 f 0 (multipliedOnce f) := by
  have on₀ : OnTape (c + 0) := on.between on₃ (by decide) (by decide)
  have on₁ : OnTape (c + 1) := on.between on₃ (by decide) (by decide)
  refine ((takes_move (l := 1) rfl on₁).cons <| (copying _).cons <| (takes_move (l := 3) rfl on₃).cons <|
    (returning _).cons <| (takes_move (l := 0) rfl on₀).cons <| (takes_dec on₀).cons takes_nil).congr ?_
  intro j
  simp only [multipliedOnce, Function.update_apply]
  grind

theorem takes_multiplyPass (on : OnTape c) (on₃ : OnTape (c + 3)) :
    Takes multiplyPass c 0 f 0 (multipliedOnce f) := by
  have on₁ : OnTape (c + 1) := on.between on₃ (by decide) (by decide)
  have on₂ : OnTape (c + 2) := on.between on₃ (by decide) (by decide)
  refine takes_multiplyPass_of on on₃ (fun f => ?_) (fun f => ?_)
  · exact takes_copy (l := 2) rfl on₂ rfl on₃ (by decide)
  · exact takes_transferAdd (l := 1) rfl on₁

theorem multiplied_once {f : Int → UInt8} (nonzero : f 0 ≠ 0) : multiplied (multipliedOnce f) = multiplied f := by
  funext j
  simp only [multiplied, multipliedOnce, Function.update_apply]
  grind

theorem shows_multiply {t : Tape} (on₃ : OnTape (t.cursor + 3)) : t.multiply.Shows t.cursor 0 (multiplied t.get) := by
  have on₁ : OnTape (t.cursor + 1) := t.onTape_cursor.between on₃ (by decide) (by decide)
  have on₂ : OnTape (t.cursor + 2) := t.onTape_cursor.between on₃ (by decide) (by decide)
  simp only [Tape.multiply, multiplied, t.get_zero]
  split
  · exact t.shows_self
  · exact (((t.shows_self.set (o := 1) rfl on₁ _).set (o := 2) rfl on₂ _).set (o := 3) rfl on₃ _).setCurrent 0

/-- A loop with such passes multiplies. -/
theorem runs_multiply_of {pass : Program} {t : Tape} (on₃ : OnTape (t.cursor + 3))
    (once : ∀ f, Takes pass t.cursor 0 f 0 (multipliedOnce f)) (io : Streams) :
    Runs [.loop pass] ⟨t, io⟩ ⟨t.multiply, io⟩ := by
  have loop : Takes [.loop pass] t.cursor 0 t.get 0 (multiplied t.get) := by
    refine takes_loop_of_pass (fun _ => True) multipliedOnce multiplied (fun f _ _ => once f) ?_ ?_ trivial
    · intro f _ nonzero
      exact ⟨trivial, Function.update_self .., multiplied_once nonzero⟩
    · intro f _ zero
      rw [multiplied, if_pos zero]
  obtain ⟨t', shows, runs⟩ := loop t io t.shows_self
  rw [(shows_multiply on₃).unique shows]
  exact runs

theorem runs_multiply {t : Tape} (on₃ : OnTape (t.cursor + 3)) (io : Streams) :
    Runs [.loop multiplyPass] ⟨t, io⟩ ⟨t.multiply, io⟩ :=
  runs_multiply_of on₃ (fun _ => takes_multiplyPass t.onTape_cursor on₃) io

/-! ### Powers -/

/-- One pass over `<<[>+>>+<<<-]>>>[<<<+>>>-]<-`, from `c3`. -/
def productPass : Program :=
  [.move (-2), .closed (.weighted [(1, 1), (3, 1)]), .move 3, .closed (.transferAdd (-3)), .move (-1), .add (-1) 0]

/-- One pass over `>>[>+<-]>[<<[>+>>+<<<-]>>>[<<<+>>>-]<-]<<<-`. -/
def exponentPass : Program :=
  [.move 2, .closed (.transferAdd 1), .move 1, .loop productPass, .move (-3), .add (-1) 0]

/-- With `c4` clear, a pass of the inner loop adds `c1` to `c2`. -/
theorem takes_productPass_of {copy back : Instruction} (on : OnTape c) (on₄ : OnTape (c + 4)) (clear : f 4 = 0)
    (copying : ∀ f, Takes [copy] c 1 f 1 (update (update (update f 2 (f 2 + f 1)) 4 (f 4 + f 1)) 1 0))
    (returning : ∀ f, Takes [back] c 4 f 4 (update (update f 1 (f 1 + f 4)) 4 0)) :
    Takes [.move (-2), copy, .move 3, back, .move (-1), .add (-1) 0] c 3 f 3
      (update (update f 2 (f 2 + f 1)) 3 (f 3 - 1)) := by
  have on₁ : OnTape (c + 1) := on.between on₄ (by decide) (by decide)
  have on₃ : OnTape (c + 3) := on.between on₄ (by decide) (by decide)
  refine ((takes_move (l := 1) rfl on₁).cons <| (copying _).cons <| (takes_move (l := 4) rfl on₄).cons <|
    (returning _).cons <| (takes_move (l := 3) rfl on₃).cons <| (takes_dec on₃).cons takes_nil).congr ?_
  intro j
  simp only [Function.update_apply]
  grind

theorem takes_productPass (on : OnTape c) (on₄ : OnTape (c + 4)) (clear : f 4 = 0) :
    Takes productPass c 3 f 3 (update (update f 2 (f 2 + f 1)) 3 (f 3 - 1)) := by
  have on₁ : OnTape (c + 1) := on.between on₄ (by decide) (by decide)
  have on₂ : OnTape (c + 2) := on.between on₄ (by decide) (by decide)
  refine takes_productPass_of on on₄ clear (fun f => ?_) (fun f => ?_)
  · exact takes_copy (l := 2) rfl on₂ rfl on₄ (by decide)
  · exact takes_transferAdd (l := 1) rfl on₁

/-- A loop with such passes adds `c3 * c1` to `c2`. -/
theorem takes_product {pass : Program} (clear : f 4 = 0)
    (once : f 3 ≠ 0 → ∀ f, f 4 = 0 → Takes pass c 3 f 3 (update (update f 2 (f 2 + f 1)) 3 (f 3 - 1))) :
    Takes [.loop pass] c 3 f 3 (update (update f 2 (f 2 + f 3 * f 1)) 3 0) := by
  by_cases zero : f 3 = 0
  · refine (takes_loop_of_zero zero).congr ?_
    intro j
    simp only [Function.update_apply]
    grind
  · refine takes_loop_of_pass (fun f => f 4 = 0) _ (fun f => update (update f 2 (f 2 + f 3 * f 1)) 3 0)
      (fun f clear _ => once zero f clear) ?_ ?_ clear
    · intro f clear _
      refine ⟨clear, Function.update_self .., ?_⟩
      funext j
      simp only [Function.update_apply]
      grind
    · intro f _ zero
      funext j
      simp only [Function.update_apply]
      grind

/-- What one pass needs and keeps: clear scratch cells, which are on the tape if they are used. -/
structure Raisable (c : Int) (f : Int → UInt8) : Prop where
  clear₃ : f 3 = 0
  clear₄ : f 4 = 0
  on₄ : f 2 ≠ 0 → OnTape (c + 4)

def raisedOnce (f : Int → UInt8) : Int → UInt8 := update (update f 2 (f 2 * f 1)) 0 (f 0 - 1)

def raised (f : Int → UInt8) : Int → UInt8 :=
  update (update f 2 (Nat.repeat (· * f 1) (f 0).toNat (f 2))) 0 0

/-- One pass of the loop that raises to a power, for any inner loops that carry over and multiply in the same way.  If
there is nothing to multiply, `c4` need not be on the tape. -/
theorem takes_exponentPass_of {carry product : Instruction} (on : OnTape c) (on₃ : OnTape (c + 3)) (h : Raisable c f)
    (carrying : ∀ f, Takes [carry] c 2 f 2 (update (update f 3 (f 3 + f 2)) 2 0))
    (multiplying : ∀ f, f 4 = 0 → (f 3 ≠ 0 → OnTape (c + 4)) →
      Takes [product] c 3 f 3 (update (update f 2 (f 2 + f 3 * f 1)) 3 0)) :
    Takes [.move 2, carry, .move 1, product, .move (-3), .add (-1) 0] c 0 f 0 (raisedOnce f) := by
  have on₀ : OnTape (c + 0) := on.between on₃ (by decide) (by decide)
  have on₂ : OnTape (c + 2) := on.between on₃ (by decide) (by decide)
  obtain ⟨clear₃, clear₄, on₄⟩ := h
  refine ((takes_move (l := 2) rfl on₂).cons <| (carrying _).cons <| (takes_move (l := 3) rfl on₃).cons <|
    (multiplying _ ?_ ?_).cons <| (takes_move (l := 0) rfl on₀).cons <| (takes_dec on₀).cons takes_nil).congr ?_
  · exact clear₄
  · intro h
    apply on₄
    simp only [Function.update_apply] at h
    grind
  · intro j
    simp only [raisedOnce, Function.update_apply]
    grind

theorem takes_exponentPass (on : OnTape c) (on₃ : OnTape (c + 3)) (h : Raisable c f) :
    Takes exponentPass c 0 f 0 (raisedOnce f) := by
  refine takes_exponentPass_of on on₃ h (fun f => ?_) (fun f clear on₄ => ?_)
  · exact takes_transferAdd (l := 3) rfl on₃
  · exact takes_product clear fun nonzero _ => takes_productPass on (on₄ nonzero)

theorem Raisable.once (h : Raisable c f) : Raisable c (raisedOnce f) := by
  refine ⟨h.clear₃, h.clear₄, ?_⟩
  intro h'
  apply h.on₄
  simp only [raisedOnce, Function.update_apply] at h'
  grind

theorem raised_once {f : Int → UInt8} (nonzero : f 0 ≠ 0) : raised (raisedOnce f) = raised f := by
  have e : Nat.repeat (· * f 1) (f 0).toNat (f 2) = Nat.repeat (· * f 1) (f 0 - 1).toNat (f 2 * f 1) := by
    rw [← toNat_pred nonzero, Nat.repeat, repeat_shift]
  funext j
  simp only [raised, e]
  simp only [raisedOnce, Function.update_apply]
  grind

theorem raised_of_zero {f : Int → UInt8} (zero : f 0 = 0) : raised f = f := by
  have e : Nat.repeat (· * f 1) (f 0).toNat (f 2) = f 2 := by
    rw [zero]
    rfl
  rw [raised, e, Function.update_eq_self, ← zero, Function.update_eq_self]

theorem shows_exponent {t : Tape} (on₃ : OnTape (t.cursor + 3)) (h : Raisable t.cursor t.get)
    (nonzero : t.current ≠ 0) : t.exponent.Shows t.cursor 0 (raised t.get) := by
  have on₂ : OnTape (t.cursor + 2) := t.onTape_cursor.between on₃ (by decide) (by decide)
  -- the scratch cells are clear already, and one of them may not be on the tape
  have clear {o : Int} (v : UInt8) (ho : o ≠ 2) (h : t.get o = 0) : (t.set 2 v).get o = 0 := by
    rw [Tape.get_set, if_neg fun h' => ho h'.1, h]
  simp only [Tape.exponent]
  rw [if_neg nonzero, Tape.set_of_get (clear _ (by decide) h.clear₃), Tape.set_of_get (clear _ (by decide) h.clear₄),
    ← t.get_zero]
  exact (t.shows_self.set (o := 2) rfl on₂ _).setCurrent 0

/-- A loop with such passes raises to a power.  Nothing need be clear if it is not entered. -/
theorem runs_exponent_of {pass : Program} {t : Tape} (on₃ : OnTape (t.cursor + 3))
    (h : t.current ≠ 0 → Raisable t.cursor t.get)
    (once : ∀ f, Raisable t.cursor f → Takes pass t.cursor 0 f 0 (raisedOnce f)) (io : Streams) :
    Runs [.loop pass] ⟨t, io⟩ ⟨t.exponent, io⟩ := by
  by_cases zero : t.current = 0
  · rw [Tape.exponent_of_zero zero]
    exact runs_loop_of_zero zero
  · have loop : Takes [.loop pass] t.cursor 0 t.get 0 (raised t.get) := by
      refine takes_loop_of_pass (Raisable t.cursor) raisedOnce raised (fun f h _ => once f h) ?_ ?_ (h zero)
      · intro f h nonzero
        exact ⟨h.once, Function.update_self .., raised_once nonzero⟩
      · intro f _ zero
        exact raised_of_zero zero
    obtain ⟨t', shows, runs⟩ := loop t io t.shows_self
    rw [(shows_exponent on₃ (h zero) zero).unique shows]
    exact runs

theorem runs_exponent {t : Tape} (on₃ : OnTape (t.cursor + 3)) (h : t.current ≠ 0 → Raisable t.cursor t.get)
    (io : Streams) : Runs [.loop exponentPass] ⟨t, io⟩ ⟨t.exponent, io⟩ :=
  runs_exponent_of on₃ h (fun _ h => takes_exponentPass t.onTape_cursor on₃ h) io

/-! ### Division -/

/-- One pass over `>+>>`, from `c1`. -/
def stepPass : Program := [.add 1 1, .move 3]

/-- One pass over `+[-<+>]>+>>`, from `c2`. -/
def wrapPass : Program := [.add 1 0, .closed (.transferAdd (-1)), .move 1, .add 1 0, .move 2]

/-- One pass over `->-[>+>>]>[+[-<+>]>+>>]<<<<<`. -/
def dividePass : Program :=
  [.add (-1) 0, .move 1, .add (-1) 0, .loop stepPass, .move 1, .loop wrapPass, .move (-5)]

/-- The remainder in `c2` goes up as what is missing to the divisor in `c1` goes down.  If nothing is missing, the
remainder becomes the divisor again and the quotient in `c3` goes up. -/
def dividedOnce (f : Int → UInt8) : Int → UInt8 :=
  if f 1 = 1 then update (update (update (update f 1 (f 2 + 1)) 2 0) 3 (f 3 + 1)) 0 (f 0 - 1)
  else update (update (update f 1 (f 1 - 1)) 2 (f 2 + 1)) 0 (f 0 - 1)

/-- What one pass over `+[-<+>]>+>>` leaves, from the cell at `k`. -/
def wrapped (k : Int) (f : Int → UInt8) : Int → UInt8 :=
  update (update (update f (k - 1) (f (k - 1) + (f k + 1))) k 0) (k + 1) (f (k + 1) + 1)

/-- One pass of the division, for any inner loops that step on and wrap around in the same way. -/
theorem takes_dividePass_of {step wrap : Program} (on : OnTape c) (on₅ : OnTape (c + 5))
    (stepping : ∀ f, Takes step c 1 f 4 (update f 2 (f 2 + 1))) (wrapping : ∀ f, Takes wrap c 2 f 5 (wrapped 2 f))
    (clear₄ : f 4 = 0) (clear₅ : f 5 = 0) (more : f 1 = 1 → f 2 ≠ 0) :
    Takes [.add (-1) 0, .move 1, .add (-1) 0, .loop step, .move 1, .loop wrap, .move (-5)] c 0 f 0
      (dividedOnce f) := by
  have on₀ : OnTape (c + 0) := on.between on₅ (by decide) (by decide)
  have on₁ : OnTape (c + 1) := on.between on₅ (by decide) (by decide)
  have on₂ : OnTape (c + 2) := on.between on₅ (by decide) (by decide)
  by_cases last : f 1 = 1
  · refine ((takes_dec on₀).cons <| (takes_move (l := 1) rfl on₁).cons <| (takes_dec on₁).cons <|
      (takes_loop_of_zero ?_).cons <| (takes_move (l := 2) rfl on₂).cons <|
      (Takes.pass ?_ (wrapping _) (takes_loop_of_zero ?_)).cons <|
      (takes_move (l := 0) rfl on₀).cons takes_nil).congr ?_
    · simp only [Function.update_apply]
      grind
    · have := more last
      simp only [Function.update_apply]
      grind
    · simp only [wrapped, Function.update_apply]
      grind
    · intro j
      rw [dividedOnce, if_pos last]
      simp only [wrapped, Function.update_apply]
      grind
  · refine ((takes_dec on₀).cons <| (takes_move (l := 1) rfl on₁).cons <| (takes_dec on₁).cons <|
      (Takes.pass ?_ (stepping _) (takes_loop_of_zero ?_)).cons <| (takes_move (l := 5) rfl on₅).cons <|
      (takes_loop_of_zero ?_).cons <| (takes_move (l := 0) rfl on₀).cons takes_nil).congr ?_
    · simp only [Function.update_apply]
      grind
    · simp only [Function.update_apply]
      grind
    · simp only [Function.update_apply]
      grind
    · intro j
      rw [dividedOnce, if_neg last]
      simp only [Function.update_apply]
      grind

theorem takes_dividePass (on : OnTape c) (on₅ : OnTape (c + 5)) (clear₄ : f 4 = 0) (clear₅ : f 5 = 0)
    (more : f 1 = 1 → f 2 ≠ 0) : Takes dividePass c 0 f 0 (dividedOnce f) := by
  have on₁ : OnTape (c + 1) := on.between on₅ (by decide) (by decide)
  have on₂ : OnTape (c + 2) := on.between on₅ (by decide) (by decide)
  have on₃ : OnTape (c + 3) := on.between on₅ (by decide) (by decide)
  have on₄ : OnTape (c + 4) := on.between on₅ (by decide) (by decide)
  refine takes_dividePass_of on on₅ (fun f => ?_) (fun f => ?_) clear₄ clear₅ more
  · exact (takes_inc (l := 2) rfl on₂).cons <| (takes_move (l := 4) rfl on₄).cons takes_nil
  · refine ((takes_inc (l := 2) rfl on₂).cons <| (takes_transferAdd (l := 1) rfl on₁).cons <|
      (takes_move (l := 3) rfl on₃).cons <| (takes_inc (l := 3) rfl on₃).cons <|
      (takes_move (l := 5) rfl on₅).cons takes_nil).congr ?_
    intro j
    simp only [wrapped, Function.update_apply]
    grind

/-- What one pass of a division by `d` needs and keeps: `c1` is what is missing from the remainder to `d`. -/
structure Dividing (d : Nat) (f : Int → UInt8) : Prop where
  clear₄ : f 4 = 0
  clear₅ : f 5 = 0
  less : (f 2).toNat < d
  missing : f 1 = UInt8.ofNat (d - (f 2).toNat)

/-- All passes together: `c2` and `c0` hold what is still to be divided by `d`. -/
def divided (d : Nat) (f : Int → UInt8) : Int → UInt8 :=
  let n := (f 2).toNat + (f 0).toNat
  update (update (update (update f 1 (UInt8.ofNat (d - n % d))) 2 (UInt8.ofNat (n % d))) 3
    (f 3 + UInt8.ofNat (n / d))) 0 0

section

variable {d : Nat} (two_le : 2 ≤ d) (le : d ≤ 256)

include le

theorem Dividing.eq_one_iff (h : Dividing d f) : f 1 = 1 ↔ (f 2).toNat + 1 = d := by
  have less := h.less
  rw [h.missing, ← UInt8.toNat_inj, UInt8.toNat_ofNat']
  have : (1 : UInt8).toNat = 1 := rfl
  omega

include two_le

theorem Dividing.once (h : Dividing d f) : Dividing d (dividedOnce f) := by
  have last := h.eq_one_iff le
  have less := h.less
  unfold dividedOnce
  split
  · next h1 =>
    refine ⟨h.clear₄, h.clear₅, ?_, ?_⟩
    · exact Nat.lt_of_lt_of_le Nat.two_pos two_le
    · show f 2 + 1 = UInt8.ofNat (d - 0)
      rw [Nat.sub_zero, ← last.1 h1, UInt8.ofNat_add, UInt8.ofNat_toNat]
      rfl
  · next h1 =>
    have room : (f 2).toNat + 1 < d := Nat.lt_of_le_of_ne less fun h' => h1 (last.2 h')
    have succ := toNat_succ (Nat.lt_of_lt_of_le room le)
    refine ⟨h.clear₄, h.clear₅, succ ▸ room, ?_⟩
    show f 1 - 1 = UInt8.ofNat (d - (f 2 + 1).toNat)
    have e : d - (f 2).toNat = d - (f 2 + 1).toNat + 1 := by omega
    rw [h.missing, e, UInt8.ofNat_add]
    exact UInt8.add_sub_cancel ..

/-- A pass does not change what is done in all. -/
theorem divided_once (h : Dividing d f) (nonzero : f 0 ≠ 0) : divided d (dividedOnce f) = divided d f := by
  have pred := toNat_pred nonzero
  have last := h.eq_one_iff le
  have pos : 0 < d := Nat.lt_of_lt_of_le Nat.two_pos two_le
  by_cases h1 : f 1 = 1
  · have n : (f 2).toNat + (f 0).toNat = (f 0 - 1).toNat + d := by
      have := last.1 h1
      omega
    have once : dividedOnce f = update (update (update (update f 1 (f 2 + 1)) 2 0) 3 (f 3 + 1)) 0 (f 0 - 1) :=
      if_pos h1
    have zero : (0 : UInt8).toNat = 0 := rfl
    funext j
    simp only [divided, n, once, Function.update_apply, Nat.add_mod_right, Nat.add_div_right _ pos, UInt8.ofNat_add]
    grind
  · have room : (f 2).toNat + 1 < d := Nat.lt_of_le_of_ne h.less fun h' => h1 (last.2 h')
    have succ := toNat_succ (Nat.lt_of_lt_of_le room le)
    have n : (f 2 + 1).toNat + (f 0 - 1).toNat = (f 2).toNat + (f 0).toNat := by omega
    have once : dividedOnce f = update (update (update f 1 (f 1 - 1)) 2 (f 2 + 1)) 0 (f 0 - 1) := if_neg h1
    funext j
    simp only [divided, once, Function.update_apply]
    grind

omit two_le le in
theorem divided_of_zero (h : Dividing d f) (zero : f 0 = 0) : divided d f = f := by
  have n : (f 2).toNat + (f 0).toNat = (f 2).toNat := by
    rw [zero]
    rfl
  funext j
  simp only [divided, n, Nat.mod_eq_of_lt h.less, Nat.div_eq_of_lt h.less, UInt8.ofNat_toNat, ← h.missing,
    Function.update_apply]
  grind

end

theorem two_le_divisor {x : UInt8} (h : x ≠ 1) : 2 ≤ Tape.divisor x := by
  unfold Tape.divisor
  split
  · decide
  · next h0 =>
    have : x.toNat ≠ 0 := fun h' => h0 (UInt8.toNat.inj h')
    have : x.toNat ≠ 1 := fun h' => h (UInt8.toNat.inj h')
    omega

theorem divisor_le (x : UInt8) : Tape.divisor x ≤ 256 := by
  have := x.toNat_lt
  unfold Tape.divisor
  split <;> omega

theorem ofNat_divisor (x : UInt8) : UInt8.ofNat (Tape.divisor x) = x := by
  unfold Tape.divisor
  split
  · next h =>
    rw [h]
    rfl
  · exact UInt8.ofNat_toNat

theorem shows_divide {t : Tape} (on₅ : OnTape (t.cursor + 5)) (clear₂ : t.get 2 = 0) (clear₃ : t.get 3 = 0)
    (nonzero : t.current ≠ 0) : t.divide.Shows t.cursor 0 (divided (Tape.divisor (t.get 1)) t.get) := by
  have on₁ : OnTape (t.cursor + 1) := t.onTape_cursor.between on₅ (by decide) (by decide)
  have on₂ : OnTape (t.cursor + 2) := t.onTape_cursor.between on₅ (by decide) (by decide)
  have on₃ : OnTape (t.cursor + 3) := t.onTape_cursor.between on₅ (by decide) (by decide)
  have n : (t.get 2).toNat + t.current.toNat = t.current.toNat := by
    rw [clear₂]
    exact Nat.zero_add _
  simp only [Tape.divide, divided, t.get_zero, n, clear₃, UInt8.zero_add]
  have nonzero' : t.current.toNat ≠ 0 := fun h => nonzero (UInt8.toNat.inj h)
  rw [if_neg nonzero']
  exact (((t.shows_self.set (o := 1) rfl on₁ _).set (o := 2) rfl on₂ _).set (o := 3) rfl on₃ _).setCurrent 0

/-- A loop with such passes divides. -/
theorem takes_divide {pass : Program} (divisor : f 1 ≠ 1) (clear₂ : f 2 = 0) (clear₄ : f 4 = 0) (clear₅ : f 5 = 0)
    (once : ∀ f, f 4 = 0 → f 5 = 0 → (f 1 = 1 → f 2 ≠ 0) → Takes pass c 0 f 0 (dividedOnce f)) :
    Takes [.loop pass] c 0 f 0 (divided (Tape.divisor (f 1)) f) := by
  have two_le := two_le_divisor divisor
  have le := divisor_le (f 1)
  have start : Dividing (Tape.divisor (f 1)) f := by
    refine ⟨clear₄, clear₅, ?_, ?_⟩
    · rw [clear₂]
      exact Nat.lt_of_lt_of_le Nat.two_pos two_le
    · rw [clear₂]
      exact (ofNat_divisor _).symm
  refine takes_loop_of_pass (Dividing (Tape.divisor (f 1))) dividedOnce _ ?_ ?_ ?_ start
  · intro f h _
    refine once f h.clear₄ h.clear₅ ?_
    intro last zero
    have := (h.eq_one_iff le).1 last
    rw [zero] at this
    exact absurd (this ▸ two_le) (by decide)
  · intro f h nonzero
    refine ⟨h.once two_le le, ?_, divided_once two_le le h nonzero⟩
    unfold dividedOnce
    split <;> exact Function.update_self ..
  · intro f h zero
    exact divided_of_zero h zero

theorem runs_divide {t : Tape} (on₅ : OnTape (t.cursor + 5)) (divisor : t.get 1 ≠ 1) (clear₂ : t.get 2 = 0)
    (clear₃ : t.get 3 = 0) (clear₄ : t.get 4 = 0) (clear₅ : t.get 5 = 0) (nonzero : t.current ≠ 0) (io : Streams) :
    Runs [.loop dividePass] ⟨t, io⟩ ⟨t.divide, io⟩ := by
  have loop := takes_divide divisor clear₂ clear₄ clear₅ fun f => takes_dividePass t.onTape_cursor on₅ (f := f)
  obtain ⟨t', shows, runs⟩ := loop t io t.shows_self
  rw [(shows_divide on₅ clear₂ clear₃ nonzero).unique shows]
  exact runs

end Program

end TapeLang
