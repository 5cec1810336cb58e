import TapeLang.C.Emit
import TapeLang.C.Meaning
import TapeLang.Proofs.Tape

/-!
# What the four functions do

The functions that every file starts with do to the array and the cursor what the operations of the same kind do to a
tape: `move_by` stops at the ends (`call_moveBy`), and off the tape `cell_get` gives zero (`call_cellGet`) and
`cell_set` and `cell_add` do nothing (`call_cellSet`, `call_cellAdd`).  None of them does anything that C leaves
undefined.
-/

namespace TapeLang.C

/-- The globals that stand for a tape, together with local variables. -/
def Scope.of (locals : List Variable) (t : Tape) : Scope := ⟨locals, t.cells.toArray, t.cursor⟩

variable {locals : List Variable} {t : Tape} {o v : Int}

/-! ### Bytes -/

theorem ofInt_store (v : Int) : UInt8.ofInt (Ty.uint8.store v) = UInt8.ofInt v := by
  have e : v % 256 % 2 ^ 8 = v % 2 ^ 8 := Int.emod_emod _ _
  rw [Ty.store, UInt8.ofInt, UInt8.ofInt, e]

theorem ofInt_natCast (n : Nat) : UInt8.ofInt n = UInt8.ofNat n := by
  apply UInt8.toNat.inj
  rw [UInt8.ofInt, UInt8.toNat_ofNat', UInt8.toNat_ofNat']
  omega

theorem ofInt_toNat (b : UInt8) : UInt8.ofInt b.toNat = b := by
  rw [ofInt_natCast, UInt8.ofNat_toNat]

/-- A byte in a variable that holds bytes stays what it is. -/
theorem store_toNat (b : UInt8) : Ty.uint8.store b.toNat = b.toNat := by
  have := b.toNat_lt
  rw [Ty.store]
  omega

/-! ### The array and the tape -/

theorem cell?_of (on : OnTape (t.cursor + o)) : (Scope.of locals t).cell? (t.cursor + o) = some (t.get o) := by
  obtain ⟨i, hi⟩ := Tape.exists_index on
  have nonneg : ¬ (i : Int) < 0 := by omega
  rw [Tape.get_of_index hi, ← hi, Scope.cell?, if_neg nonneg]
  have size : i.val < t.cells.toArray.size := by
    rw [t.cells.size_toArray]
    exact i.isLt
  exact Array.getElem?_eq_getElem size

theorem set_of_not_onTape (off : ¬ OnTape (t.cursor + o)) (b : UInt8) : t.set o b = t := by
  rw [Tape.set, Tape.index?_eq_none off]

theorem setCell?_of (on : OnTape (t.cursor + o)) (v : Int) :
    (Scope.of locals t).setCell? (t.cursor + o) v = some (.of locals (t.set o (UInt8.ofInt v))) := by
  obtain ⟨i, hi⟩ := Tape.exists_index on
  have bound := i.isLt
  have inside : 0 ≤ (i : Int) ∧ (i : Int).toNat < (Scope.of locals t).tape.size := by
    refine ⟨by omega, ?_⟩
    show i.val < t.cells.toArray.size
    rw [t.cells.size_toArray]
    exact bound
  rw [Tape.set, Tape.index?_eq_some_iff.2 hi, ← hi, Scope.setCell?, if_pos inside, ofInt_store]
  have e : t.cells.toArray.setIfInBounds i (UInt8.ofInt v) = (t.put i (UInt8.ofInt v)).cells.toArray := by
    have size : i.val < t.cells.toArray.size := inside.2
    rw [Array.setIfInBounds_def, dif_pos size]
    rfl
  show some (⟨locals, _, _⟩ : Scope) = some ⟨locals, _, _⟩
  rw [← e]
  rfl

theorem set_get_add (t : Tape) (o : Int) (d : UInt8) : t.set o (t.get o + d) = t.add o d := by
  rw [Tape.set, Tape.get, Tape.add]
  cases t.index? o with
  | some i => rfl
  | none => rfl

/-! ### Expressions -/

section

variable {length : Nat} {caller : Caller} {s : Scope} {a b : Value} {e left right : Expr}

theorem eval?_binary {op : Op} (hop : op ≠ .and) (hl : left.eval? length caller s = some a)
    (hr : right.eval? length caller s = some b) :
    (Expr.binary op left right).eval? length caller s
      = op.value? (a.type.common b.type) ((a.type.common b.type).store a.value)
        ((a.type.common b.type).store b.value) := by
  cases op with
  | and => exact absurd rfl hop
  | _ =>
    rw [Expr.eval?, hl, hr]
    · rfl
    · exact hop

theorem eval?_cell {index : Expr} {byte : UInt8} (h : index.eval? length caller s = some a)
    (hc : s.cell? a.value = some byte) : (Expr.cell index).eval? length caller s = some ⟨.int, byte.toNat⟩ := by
  rw [Expr.eval?, h]
  show (do return (⟨.int, (← s.cell? a.value).toNat⟩ : Value)) = _
  rw [hc]
  rfl

theorem eval?_toByte (h : e.eval? length caller s = some a) :
    (Expr.toByte e).eval? length caller s = some ⟨.int, Ty.uint8.store a.value⟩ := by
  rw [Expr.eval?, h]
  rfl

theorem eval?_neg (h : e.eval? length caller s = some a) :
    (Expr.neg e).eval? length caller s = a.type.result? (-a.value) := by
  rw [Expr.eval?, h]
  rfl

theorem eval?_paren (h : e.eval? length caller s = some a) : (Expr.paren e).eval? length caller s = some a := by
  rw [Expr.eval?, h]

theorem eval?_cond {test yes no : Expr} (h : test.eval? length caller s = some a) :
    (Expr.cond test yes no).eval? length caller s
      = if a.value = 0 then no.eval? length caller s else yes.eval? length caller s := by
  rw [Expr.eval?, h]
  rfl

end

/-! ### Statements of function bodies -/

theorem runPlainAll?_cons {length : Nat} {s s' : Scope} {statement : Stmt} {rest : List Stmt}
    (h : statement.runPlain? length s = some (s', none)) :
    runPlainAll? length s (statement :: rest) = runPlainAll? length s' rest := by
  rw [runPlainAll?, h]
  rfl

theorem runPlain?_assign {length : Nat} {s s' : Scope} {place : Place} {value : Expr} {v : Value}
    (h : value.eval? length (fun _ _ _ => none) s = some v)
    (stored : place.set? length (fun _ _ _ => none) s v.value = some s') :
    (Stmt.assign place value).runPlain? length s = some (s', none) := by
  simp only [Stmt.runPlain?, h, Option.bind_eq_bind, Option.bind_some, stored]
  rfl

theorem runPlain?_ifThen {length : Nat} {s : Scope} {test : Expr} {body : Stmt} {c : Bool}
    (h : test.eval? length (fun _ _ _ => none) s = some (truth c)) :
    (Stmt.ifThen test body).runPlain? length s = if c then body.runPlain? length s else some (s, none) := by
  rw [Stmt.runPlain?, h]
  cases c with
  | true => rfl
  | false => rfl

theorem call?_of_body (f : Function) (s : Scope) (arguments : List Int) {length : Nat} {after : Scope}
    {returned : Option Int} (arity : arguments.length = f.parameters.length)
    (body : runPlainAll? length { s with locals := f.bound arguments } f.body = some (after, returned)) :
    f.call? length s arguments
      = some ({ after with locals := s.locals }, returned.map fun v => ⟨f.result.promoted, f.result.store v⟩) := by
  rw [Function.call?, if_pos arity, body]
  rfl

theorem long_result? {v : Int} (h : -longBound ≤ v ∧ v < longBound) : Ty.long.result? v = some ⟨.long, v⟩ := if_pos h

theorem call_moveBy {n : Int} (h : -intBound ≤ n ∧ n < intBound) :
    moveByFunction.call? tapeLength (.of locals t) [n] = some (.of locals (t.move n), none) := by
  have cursor_lt := t.cursor.isLt
  have length : tapeLength = 30000 := rfl
  simp only [intBound] at h
  let scope (k : Int) : Scope := ⟨[⟨"delta", .long, n⟩], t.cells.toArray, k⟩
  have sum : -longBound ≤ t.cursor + n ∧ t.cursor + n < longBound := by
    simp only [longBound]
    omega
  have first : (Stmt.addAssign (.var cursorName) (.var "delta")).runPlain? tapeLength (scope t.cursor)
      = some (scope (t.cursor + n), none) := by
    have e : (Expr.binary .add (Place.var cursorName).toExpr (.var "delta")).eval? tapeLength (fun _ _ _ => none)
        (scope t.cursor) = Ty.long.result? (t.cursor + n) := rfl
    rw [Stmt.runPlain?, e, long_result? sum]
    rfl
  have second (k : Int) : (Stmt.ifThen (.binary .lt cursor (.lit 0)) (.assign (.var cursorName) (.lit 0))).runPlain?
      tapeLength (scope k) = some (scope (if k < 0 then 0 else k), none) := by
    rw [runPlain?_ifThen (c := decide (k < 0)) rfl]
    by_cases hk : k < 0
    · rw [if_pos (decide_eq_true hk), if_pos hk]
      rfl
    · rw [if_neg (by simpa using hk), if_neg hk]
  have third (k : Int) : (Stmt.ifThen (.binary .ge cursor (.var lengthName))
      (.assign (.var cursorName) (.binary .sub (.var lengthName) (.lit 1)))).runPlain? tapeLength (scope k)
        = some (scope (if tapeLength ≤ k then tapeLength - 1 else k), none) := by
    rw [runPlain?_ifThen (c := decide (tapeLength ≤ k)) rfl]
    by_cases hk : tapeLength ≤ k
    · rw [if_pos (decide_eq_true hk), if_pos hk]
      rfl
    · rw [if_neg (by simpa using hk), if_neg hk]
  have body : runPlainAll? tapeLength (scope t.cursor) moveByFunction.body
      = some (scope (t.move n).cursor, none) := by
    have e : ((t.move n).cursor : Int)
        = if tapeLength ≤ (if t.cursor + n < 0 then 0 else t.cursor + n) then (tapeLength : Int) - 1
          else if t.cursor + n < 0 then 0 else t.cursor + n := by
      simp only [Tape.move, Tape.cellNumber]
      split <;> split <;> omega
    rw [moveByFunction, runPlainAll?_cons first, runPlainAll?_cons (second _), runPlainAll?_cons (third _), e]
    rfl
  exact call?_of_body moveByFunction (.of locals t) [n] rfl body

/-! ### Cells -/

/-- What the functions that work on a cell start with. -/
theorem runPlain?_declareIndex {parameters : List Variable}
    (e : (Expr.binary .add cursor (.var "offset")).eval? tapeLength (fun _ _ _ => none) (.of parameters t)
      = Ty.long.result? (t.cursor + o))
    (near : -intBound ≤ o ∧ o < intBound) :
    declareIndex.runPlain? tapeLength (.of parameters t)
      = some (.of (⟨"i", .long, t.cursor + o⟩ :: parameters) t, none) := by
  have cursor_lt := t.cursor.isLt
  have length : tapeLength = 30000 := rfl
  simp only [intBound] at near
  have sum : -longBound ≤ t.cursor + o ∧ t.cursor + o < longBound := by
    simp only [longBound]
    omega
  rw [declareIndex, Stmt.runPlain?, declareAll?, e, long_result? sum]
  rfl

theorem eval?_onTape {caller : Caller} {parameters : List Variable}
    (free : parameters.find? (fun v => v.name == lengthName) = none) (i : Int) :
    onTape.eval? tapeLength caller (.of (⟨"i", .long, i⟩ :: parameters) t) = some (truth (decide (OnTape i))) := by
  have left : (Expr.binary .ge (.var "i") (.lit 0)).eval? tapeLength caller (.of (⟨"i", .long, i⟩ :: parameters) t)
      = some (truth (decide (0 ≤ i))) := rfl
  have index : (Expr.var "i").eval? tapeLength caller (.of (⟨"i", .long, i⟩ :: parameters) t) = some ⟨.long, i⟩ := rfl
  have length : (Expr.var lengthName).eval? tapeLength caller (.of (⟨"i", .long, i⟩ :: parameters) t)
      = some ⟨.int, tapeLength⟩ := by
    have unbound : (Scope.of (⟨"i", .long, i⟩ :: parameters) t).lookup? lengthName = none := free
    show (Scope.of (⟨"i", .long, i⟩ :: parameters) t).get? tapeLength lengthName = _
    rw [Scope.get?, unbound]
    rfl
  have right : (Expr.binary .lt (.var "i") (.var lengthName)).eval? tapeLength caller
      (.of (⟨"i", .long, i⟩ :: parameters) t) = some (truth (decide (i < tapeLength))) := by
    rw [eval?_binary (by decide) index length]
    rfl
  rw [onTape, Expr.eval?, left, right]
  by_cases h : 0 ≤ i
  · by_cases h' : i < tapeLength
    · simp [truth, h, h', OnTape]
    · simp [truth, h, h', OnTape]
  · simp [truth, h, OnTape]

theorem call_cellGet (near : -intBound ≤ o ∧ o < intBound) :
    cellGetFunction.call? tapeLength (.of locals t) [o]
      = some (.of locals t, some ⟨.int, (t.get o).toNat⟩) := by
  have test : (Expr.paren onTape).eval? tapeLength (fun _ _ _ => none)
      (.of [⟨"i", .long, t.cursor + o⟩, ⟨"offset", .long, o⟩] t) = some (truth (decide (OnTape (t.cursor + o)))) :=
    eval?_onTape rfl _
  have index : (Expr.var "i").eval? tapeLength (fun _ _ _ => none)
      (.of [⟨"i", .long, t.cursor + o⟩, ⟨"offset", .long, o⟩] t) = some ⟨.long, t.cursor + o⟩ := rfl
  have value : (Expr.cond (.paren onTape) (.cell (.var "i")) (.lit 0)).eval? tapeLength (fun _ _ _ => none)
      (.of [⟨"i", .long, t.cursor + o⟩, ⟨"offset", .long, o⟩] t) = some ⟨.int, (t.get o).toNat⟩ := by
    rw [eval?_cond test]
    by_cases on : OnTape (t.cursor + o)
    · rw [if_neg (by simp [truth, on]), eval?_cell index (cell?_of on)]
    · rw [if_pos (by simp [truth, on]), Tape.get_of_not_onTape on]
      rfl
  have body : runPlainAll? tapeLength (Scope.of [⟨"offset", .long, o⟩] t) cellGetFunction.body
      = some (Scope.of [⟨"i", .long, t.cursor + o⟩, ⟨"offset", .long, o⟩] t, some ((t.get o).toNat : Int)) := by
    rw [cellGetFunction, runPlainAll?_cons (runPlain?_declareIndex rfl near), runPlainAll?, Stmt.runPlain?, value]
    rfl
  have call := call?_of_body cellGetFunction (.of locals t) [o] rfl body
  have result : cellGetFunction.result.store (t.get o).toNat = (t.get o).toNat := store_toNat _
  rw [Option.map_some, result] at call
  exact call

/-- A value is stored in the cell if there is one. -/
theorem runPlain?_store {parameters : List Variable} {value : Expr} {v : Value}
    (free : parameters.find? (fun v => v.name == lengthName) = none)
    (h : OnTape (t.cursor + o) →
      value.eval? tapeLength (fun _ _ _ => none) (.of (⟨"i", .long, t.cursor + o⟩ :: parameters) t) = some v) :
    (Stmt.ifThen onTape (.assign (.cell (.var "i")) value)).runPlain? tapeLength
        (.of (⟨"i", .long, t.cursor + o⟩ :: parameters) t)
      = some (.of (⟨"i", .long, t.cursor + o⟩ :: parameters) (t.set o (UInt8.ofInt v.value)), none) := by
  rw [runPlain?_ifThen (eval?_onTape free _)]
  by_cases on : OnTape (t.cursor + o)
  · have index : (Expr.var "i").eval? tapeLength (fun _ _ _ => none)
        (.of (⟨"i", .long, t.cursor + o⟩ :: parameters) t) = some ⟨.long, t.cursor + o⟩ := rfl
    have place : (Place.cell (.var "i")).set? tapeLength (fun _ _ _ => none)
        (.of (⟨"i", .long, t.cursor + o⟩ :: parameters) t) v.value
          = some (.of (⟨"i", .long, t.cursor + o⟩ :: parameters) (t.set o (UInt8.ofInt v.value))) := by
      rw [Place.set?, index]
      exact setCell?_of on v.value
    rw [if_pos (decide_eq_true on), runPlain?_assign (h on) place]
  · rw [if_neg (by simpa using on), set_of_not_onTape on]

theorem call_cellSet (near : -intBound ≤ o ∧ o < intBound) (v : Int) :
    cellSetFunction.call? tapeLength (.of locals t) [o, v] = some (.of locals (t.set o (UInt8.ofInt v)), none) := by
  have stored : (Expr.var "value").eval? tapeLength (fun _ _ _ => none)
      (.of [⟨"i", .long, t.cursor + o⟩, ⟨"value", .uint8, Ty.uint8.store v⟩, ⟨"offset", .long, o⟩] t)
        = some ⟨.int, Ty.uint8.store v⟩ := rfl
  have body : runPlainAll? tapeLength (Scope.of [⟨"value", .uint8, Ty.uint8.store v⟩, ⟨"offset", .long, o⟩] t)
      cellSetFunction.body = some (Scope.of
        [⟨"i", .long, t.cursor + o⟩, ⟨"value", .uint8, Ty.uint8.store v⟩, ⟨"offset", .long, o⟩]
        (t.set o (UInt8.ofInt v)), none) := by
    rw [cellSetFunction, runPlainAll?_cons (runPlain?_declareIndex rfl near),
      runPlainAll?_cons (runPlain?_store rfl fun _ => stored), ofInt_store]
    rfl
  exact call?_of_body cellSetFunction (.of locals t) [o, v] rfl body

theorem call_cellAdd (near : -intBound ≤ o ∧ o < intBound) (d : Int) :
    cellAddFunction.call? tapeLength (.of locals t) [o, d] = some (.of locals (t.add o (UInt8.ofInt d)), none) := by
  have index : (Expr.var "i").eval? tapeLength (fun _ _ _ => none)
      (.of [⟨"i", .long, t.cursor + o⟩, ⟨"delta", .uint8, Ty.uint8.store d⟩, ⟨"offset", .long, o⟩] t)
        = some ⟨.long, t.cursor + o⟩ := rfl
  have delta : (Expr.var "delta").eval? tapeLength (fun _ _ _ => none)
      (.of [⟨"i", .long, t.cursor + o⟩, ⟨"delta", .uint8, Ty.uint8.store d⟩, ⟨"offset", .long, o⟩] t)
        = some ⟨.int, Ty.uint8.store d⟩ := rfl
  have fits : -intBound ≤ (t.get o).toNat + Ty.uint8.store d ∧ (t.get o).toNat + Ty.uint8.store d < intBound := by
    have := (t.get o).toNat_lt
    simp only [Ty.store, intBound]
    omega
  have sum (on : OnTape (t.cursor + o)) :
      (Expr.toByte (.paren (.binary .add (.cell (.var "i")) (.var "delta")))).eval? tapeLength (fun _ _ _ => none)
        (.of [⟨"i", .long, t.cursor + o⟩, ⟨"delta", .uint8, Ty.uint8.store d⟩, ⟨"offset", .long, o⟩] t)
          = some ⟨.int, Ty.uint8.store ((t.get o).toNat + Ty.uint8.store d)⟩ := by
    have value : (Expr.binary .add (.cell (.var "i")) (.var "delta")).eval? tapeLength (fun _ _ _ => none)
        (.of [⟨"i", .long, t.cursor + o⟩, ⟨"delta", .uint8, Ty.uint8.store d⟩, ⟨"offset", .long, o⟩] t)
          = some ⟨.int, (t.get o).toNat + Ty.uint8.store d⟩ := by
      rw [eval?_binary (by decide) (eval?_cell index (cell?_of on)) delta]
      exact if_pos fits
    exact eval?_toByte (eval?_paren value)
  have body : runPlainAll? tapeLength (Scope.of [⟨"delta", .uint8, Ty.uint8.store d⟩, ⟨"offset", .long, o⟩] t)
      cellAddFunction.body = some (Scope.of
        [⟨"i", .long, t.cursor + o⟩, ⟨"delta", .uint8, Ty.uint8.store d⟩, ⟨"offset", .long, o⟩]
        (t.add o (UInt8.ofInt d)), none) := by
    rw [cellAddFunction, runPlainAll?_cons (runPlain?_declareIndex rfl near),
      runPlainAll?_cons (runPlain?_store rfl sum), ofInt_store, UInt8.ofInt_add, ofInt_toNat, ofInt_store,
      set_get_add]
    rfl
  exact call?_of_body cellAddFunction (.of locals t) [o, d] rfl body

end TapeLang.C
