import TapeLang.Arithmetic
import TapeLang.Proofs.Bisimulation
import TapeLang.Proofs.TapeFunctions

/-!
# What the statements of a program do

A file that a program is turned into carries out its statements one by one (`Reaches`).  A closed form becomes
statements that leave on the array what the form leaves on the tape (`reaches_closed`): no operation overflows, cells
off the tape are never touched, and every variable is gone in the end but `counter`.
-/

namespace TapeLang.C

variable {p : Program} {locals : List Variable} {t : Tape} {tasks : List Task}

/-- The value of an expression in the file of a program. -/
def Gives (p : Program) (locals : List Variable) (t : Tape) (e : Expr) (v : Value) : Prop :=
  e.eval? tapeLength p.toC.caller (.of locals t) = some v

/-- A state of the file in which nothing undefined has happened. -/
def State.ready (tasks : List Task) (locals : List Variable) (t : Tape) : State := ⟨tasks, .of locals t, false⟩

/-- In at least one step, and in silence, the file of a program comes from one state to another. -/
def Reaches (p : Program) (a b : State) : Prop := ∃ k, 0 < k ∧ p.toC.process.Quiet k a b

theorem Reaches.trans {a b c : State} (h : Reaches p a b) (h' : Reaches p b c) : Reaches p a c := by
  obtain ⟨k, pos, quiet⟩ := h
  obtain ⟨l, -, quiet'⟩ := h'
  exact ⟨k + l, by omega, quiet.trans quiet'⟩

/-! ### Values -/

section

variable {left right e : Expr} {x y z : Int} {v : Value}

theorem int_result? (h : -intBound ≤ x ∧ x < intBound) : Ty.int.result? x = some ⟨.int, x⟩ := if_pos h

theorem constant?_eq {n : Nat} (h : n < longBound) :
    constant? n = some ⟨.int, n⟩ ∨ constant? n = some ⟨.long, n⟩ := by
  by_cases small : (n : Int) < intBound
  · exact .inl (if_pos small)
  · rw [constant?, if_neg small]
    refine .inr (long_result? ⟨?_, h⟩)
    simp only [longBound]
    omega

theorem gives_number (p : Program) (locals : List Variable) (t : Tape) {n : Int} (h : -intBound ≤ n ∧ n < intBound) :
    ∃ type, Gives p locals t (number n) ⟨type, n⟩ := by
  simp only [intBound] at h
  cases n with
  | ofNat k =>
    have small : (k : Int) < longBound := by
      have : Int.ofNat k = (k : Int) := rfl
      simp only [longBound]
      omega
    rcases constant?_eq small with hk | hk
    · exact ⟨.int, hk⟩
    · exact ⟨.long, hk⟩
  | negSucc k =>
    have e : Int.negSucc k = -((k + 1 : Nat) : Int) := rfl
    have small : ((k + 1 : Nat) : Int) < longBound := by
      simp only [longBound]
      omega
    have constant : (Expr.lit (k + 1)).eval? tapeLength p.toC.caller (.of locals t) = constant? (k + 1) := rfl
    rw [e] at h
    rcases constant?_eq small with hk | hk
    · refine ⟨.int, (eval?_neg (constant.trans hk)).trans ?_⟩
      rw [e]
      refine int_result? ?_
      simp only [intBound]
      omega
    · refine ⟨.long, (eval?_neg (constant.trans hk)).trans ?_⟩
      rw [e]
      refine long_result? ?_
      simp only [longBound]
      omega

theorem gives_lit {k : Nat} (h : (k : Int) < intBound) : Gives p locals t (.lit k) ⟨.int, k⟩ := by
  rw [Gives, Expr.eval?, constant?, if_pos h]

theorem gives_zero : Gives p locals t (.lit 0) ⟨.int, 0⟩ := rfl

theorem gives_add (hl : Gives p locals t left ⟨.int, x⟩) (hr : Gives p locals t right ⟨.int, y⟩)
    (fits : -intBound ≤ x + y ∧ x + y < intBound) : Gives p locals t (.binary .add left right) ⟨.int, x + y⟩ :=
  (eval?_binary (by decide) hl hr).trans (int_result? fits)

theorem gives_sub (hl : Gives p locals t left ⟨.int, x⟩) (hr : Gives p locals t right ⟨.int, y⟩)
    (fits : -intBound ≤ x - y ∧ x - y < intBound) : Gives p locals t (.binary .sub left right) ⟨.int, x - y⟩ :=
  (eval?_binary (by decide) hl hr).trans (int_result? fits)

theorem gives_mul (hl : Gives p locals t left ⟨.int, x⟩) (hr : Gives p locals t right ⟨.int, y⟩)
    (fits : -intBound ≤ x * y ∧ x * y < intBound) : Gives p locals t (.binary .mul left right) ⟨.int, x * y⟩ :=
  (eval?_binary (by decide) hl hr).trans (int_result? fits)

theorem gives_toByte (h : Gives p locals t e v) : Gives p locals t (.toByte e) ⟨.int, Ty.uint8.store v.value⟩ :=
  eval?_toByte h

theorem gives_paren (h : Gives p locals t e v) : Gives p locals t (.paren e) v := eval?_paren h

theorem gives_neg (h : Gives p locals t e ⟨.int, x⟩) (fits : -intBound ≤ -x ∧ -x < intBound) :
    Gives p locals t (.neg e) ⟨.int, -x⟩ :=
  (eval?_neg h).trans (int_result? fits)

/-- The cell under the cursor can be read wherever no variable has the name of the cursor. -/
theorem gives_current (free : locals.find? (fun v => v.name == cursorName) = none) :
    Gives p locals t current ⟨.int, t.current.toNat⟩ := by
  have index : cursor.eval? tapeLength p.toC.caller (.of locals t) = some ⟨.long, t.cursor⟩ := by
    have unbound : (Scope.of locals t).lookup? cursorName = none := free
    show (Scope.of locals t).get? tapeLength cursorName = _
    rw [Scope.get?, unbound]
    rfl
  have here : (Scope.of locals t).cell? t.cursor = some t.current := by
    have on : OnTape (t.cursor + 0) := by
      rw [Int.add_zero]
      exact t.onTape_cursor
    have cell : (Scope.of locals t).cell? (t.cursor + 0) = some (t.get 0) := cell?_of on
    rwa [Int.add_zero, t.get_zero] at cell
  exact eval?_cell index here

theorem gives_cellGet {o : Int} (near : -intBound ≤ o ∧ o < intBound) :
    Gives p locals t (cellGet o) ⟨.int, (t.get o).toNat⟩ := by
  obtain ⟨type, ho⟩ := gives_number p locals t near
  have found : p.toC.function? "cell_get" = some cellGetFunction := rfl
  have called : p.toC.caller "cell_get" o (.of locals t) = some ⟨.int, (t.get o).toNat⟩ := by
    rw [File.caller, found]
    show ((cellGetFunction.call? tapeLength (.of locals t) [o]).bind fun called => called.2) = _
    rw [call_cellGet near]
    rfl
  rw [Gives, cellGet, Expr.eval?, show (number o).eval? tapeLength p.toC.caller (.of locals t) = _ from ho]
  exact called

end

/-! ### Statements -/

section

variable {tasks' : List Task} {s s' : Scope} {e : Expr} {v : Value} {o : Int}

theorem reaches_of_carryOut {statement : Stmt}
    (silent : State.request p.toC ⟨.statement statement :: tasks, s, false⟩ = .silent)
    (done : State.carryOut? p.toC s tasks none statement = some (tasks', s')) :
    Reaches p ⟨.statement statement :: tasks, s, false⟩ ⟨tasks', s', false⟩ := by
  have resumed : State.resume p.toC ⟨.statement statement :: tasks, s, false⟩ none = ⟨tasks', s', false⟩ := by
    simp only [State.resume, done]
  refine ⟨1, by omega, ?_⟩
  rw [← resumed]
  exact .one silent

theorem reaches_call {name : String} {f : Function} {arguments : List Expr} {values : List Int}
    {returned : Option Value} (found : p.toC.function? name = some f)
    (given : p.toC.evalAll? s arguments = some values)
    (called : f.call? tapeLength s values = some (s', returned)) :
    Reaches p ⟨.statement (.call name arguments) :: tasks, s, false⟩ ⟨tasks, s', false⟩ := by
  refine reaches_of_carryOut rfl ?_
  have length : p.toC.tapeLength = tapeLength := rfl
  simp only [State.carryOut?, found, given, length, Option.bind_eq_bind, Option.bind_some, called]
  rfl

theorem reaches_moveBy {n : Int} (h : -intBound ≤ n ∧ n < intBound) :
    Reaches p (.ready (.statement (moveBy (number n)) :: tasks) locals t) (.ready tasks locals (t.move n)) := by
  obtain ⟨type, hn⟩ := gives_number p locals t h
  have given : p.toC.evalAll? (.of locals t) [number n] = some [n] := by
    have hn' : p.toC.eval? (.of locals t) (number n) = _ := hn
    simp [File.evalAll?, hn']
  exact reaches_call rfl given (call_moveBy h)

/-- The two functions that change a cell are called with an offset and a value. -/
private theorem given_offset (near : -intBound ≤ o ∧ o < intBound) (h : Gives p locals t e v) :
    p.toC.evalAll? (.of locals t) [number o, e] = some [o, v.value] := by
  obtain ⟨type, ho⟩ := gives_number p locals t near
  have ho' : p.toC.eval? (.of locals t) (number o) = _ := ho
  have h' : p.toC.eval? (.of locals t) e = _ := h
  simp [File.evalAll?, ho', h']

theorem reaches_cellSet (near : -intBound ≤ o ∧ o < intBound) (h : Gives p locals t e v) :
    Reaches p (.ready (.statement (cellSet o e) :: tasks) locals t)
      (.ready tasks locals (t.set o (UInt8.ofInt v.value))) :=
  reaches_call rfl (given_offset near h) (call_cellSet near v.value)

theorem reaches_cellAdd (near : -intBound ≤ o ∧ o < intBound) (h : Gives p locals t e v) :
    Reaches p (.ready (.statement (cellAdd o e) :: tasks) locals t)
      (.ready tasks locals (t.add o (UInt8.ofInt v.value))) :=
  reaches_call rfl (given_offset near h) (call_cellAdd near v.value)

/-- An assignment to the cell under the cursor. -/
theorem set?_current (free : locals.find? (fun v => v.name == cursorName) = none) (x : Int) :
    (Place.cell cursor).set? tapeLength p.toC.caller (.of locals t) x
      = some (.of locals (t.setCurrent (UInt8.ofInt x))) := by
  have index : cursor.eval? tapeLength p.toC.caller (.of locals t) = some ⟨.long, t.cursor⟩ := by
    have unbound : (Scope.of locals t).lookup? cursorName = none := free
    show (Scope.of locals t).get? tapeLength cursorName = _
    rw [Scope.get?, unbound]
    rfl
  have on : OnTape (t.cursor + 0) := by
    rw [Int.add_zero]
    exact t.onTape_cursor
  have stored : (Scope.of locals t).setCell? (t.cursor + 0) x = some (.of locals (t.set 0 (UInt8.ofInt x))) :=
    setCell?_of on x
  rw [Int.add_zero] at stored
  rw [Place.set?, index, Tape.setCurrent_eq_set]
  exact stored

theorem reaches_assign {place : Place} (h : Gives p locals t e v)
    (stored : place.set? tapeLength p.toC.caller (.of locals t) v.value = some s') :
    Reaches p (.ready (.statement (.assign place e) :: tasks) locals t) ⟨tasks, s', false⟩ := by
  refine reaches_of_carryOut rfl ?_
  have h' : p.toC.eval? (.of locals t) e = _ := h
  have stored' : place.set? p.toC.tapeLength p.toC.caller (.of locals t) v.value = some s' := stored
  simp only [State.carryOut?, h', Option.bind_eq_bind, Option.bind_some, stored']
  rfl

theorem reaches_addAssign {place : Place} (h : Gives p locals t (.binary .add place.toExpr e) v)
    (stored : place.set? tapeLength p.toC.caller (.of locals t) v.value = some s') :
    Reaches p (.ready (.statement (.addAssign place e) :: tasks) locals t) ⟨tasks, s', false⟩ := by
  refine reaches_of_carryOut rfl ?_
  have h' : p.toC.eval? (.of locals t) (.binary .add place.toExpr e) = _ := h
  have stored' : place.set? p.toC.tapeLength p.toC.caller (.of locals t) v.value = some s' := stored
  simp only [State.carryOut?, h', Option.bind_eq_bind, Option.bind_some, stored']
  rfl

theorem reaches_clearCurrent (free : locals.find? (fun v => v.name == cursorName) = none) :
    Reaches p (.ready (.statement clearCurrent :: tasks) locals t) (.ready tasks locals (t.setCurrent 0)) :=
  reaches_assign (v := ⟨.int, 0⟩) rfl (set?_current free 0)

theorem reaches_ifThen {test : Expr} {body : Stmt} (h : Gives p locals t test v) :
    Reaches p (.ready (.statement (.ifThen test body) :: tasks) locals t)
      (.ready (if v.value = 0 then tasks else .statement body :: tasks) locals t) := by
  refine reaches_of_carryOut rfl ?_
  have h' : p.toC.eval? (.of locals t) test = _ := h
  simp only [State.carryOut?, h', Option.bind_eq_bind, Option.bind_some]
  rfl

theorem reaches_whileDo {test : Expr} {body : Stmt} (h : Gives p locals t test v) :
    Reaches p (.ready (.statement (.whileDo test body) :: tasks) locals t)
      (.ready (if v.value = 0 then tasks else .statement body :: .statement (.whileDo test body) :: tasks)
        locals t) := by
  refine reaches_of_carryOut rfl ?_
  have h' : p.toC.eval? (.of locals t) test = _ := h
  simp only [State.carryOut?, h', Option.bind_eq_bind, Option.bind_some]
  rfl

theorem reaches_block {body : List Stmt} :
    Reaches p (.ready (.statement (.block body) :: tasks) locals t)
      (.ready (body.map .statement ++ .leave locals.length :: tasks) locals t) :=
  reaches_of_carryOut rfl rfl

theorem reaches_leave (inner locals : List Variable) :
    Reaches p (.ready (.leave locals.length :: tasks) (inner ++ locals) t) (.ready tasks locals t) := by
  refine ⟨1, by omega, ?_⟩
  have outer : (inner ++ locals).drop ((inner ++ locals).length - locals.length) = locals := by
    rw [List.length_append, Nat.add_sub_cancel, List.drop_left]
  have resumed : State.resume p.toC (.ready (.leave locals.length :: tasks) (inner ++ locals) t) none
      = .ready tasks locals t := by
    show (⟨tasks, ⟨(inner ++ locals).drop ((inner ++ locals).length - locals.length), _, _⟩, false⟩ : State) = _
    rw [outer]
    rfl
  rw [← resumed]
  exact .one rfl

/-- A declaration gives its variables their values one after the other. -/
theorem reaches_declare {type : Ty} {inits : List (String × Expr)}
    (h : declareAll? tapeLength p.toC.caller type inits (.of locals t) = some s') :
    Reaches p (.ready (.statement (.declare type inits) :: tasks) locals t) ⟨tasks, s', false⟩ := by
  refine reaches_of_carryOut rfl ?_
  have h' : declareAll? p.toC.tapeLength p.toC.caller type inits (.of locals t) = some s' := h
  simp only [State.carryOut?, h', Option.bind_eq_bind, Option.bind_some]
  rfl

theorem declareAll?_cons {type : Ty} {name : String} {rest : List (String × Expr)} (h : Gives p locals t e v) :
    declareAll? tapeLength p.toC.caller type ((name, e) :: rest) (.of locals t)
      = declareAll? tapeLength p.toC.caller type rest (.of (⟨name, type, type.store v.value⟩ :: locals) t) := by
  rw [declareAll?, show e.eval? tapeLength p.toC.caller (.of locals t) = _ from h]
  rfl

end

/-! ### Closed forms -/

/-- The variable that a file keeps outside its blocks. -/
def Variable.counter (n : Int) : Variable := ⟨"counter", .uint8, n⟩

section

variable {n : Int} {body : Stmt}

theorem near_toInt (o : Int8) : -intBound ≤ o.toInt ∧ o.toInt < intBound := by
  have := o.le_toInt
  have := o.toInt_lt
  simp only [intBound]
  omega

theorem toNat_eq_zero_iff {b : UInt8} : (b.toNat : Int) = 0 ↔ b = 0 := by
  rw [← UInt8.toNat_inj]
  simp

private theorem reaches_ifThen_current (free : locals.find? (fun v => v.name == cursorName) = none) :
    Reaches p (.ready (.statement (.ifThen current body) :: tasks) locals t)
      (.ready (if t.current = 0 then tasks else .statement body :: tasks) locals t) := by
  have h : Reaches p (.ready (.statement (.ifThen current body) :: tasks) locals t)
      (.ready (if (t.current.toNat : Int) = 0 then tasks else .statement body :: tasks) locals t) :=
    reaches_ifThen (gives_current free)
  simp only [toNat_eq_zero_iff] at h
  exact h

/-- The product of two bytes, put into a byte. -/
private theorem gives_product {e e' : Expr} {a b : UInt8} (h : Gives p locals t e ⟨.int, a.toNat⟩)
    (h' : Gives p locals t e' ⟨.int, b.toNat⟩) :
    Gives p locals t (.toByte (.paren (.binary .mul e e'))) ⟨.int, (a * b).toNat⟩ := by
  have small : a.toNat * b.toNat ≤ 255 * 255 :=
    Nat.mul_le_mul (Nat.le_of_lt_succ a.toNat_lt) (Nat.le_of_lt_succ b.toNat_lt)
  have fits : -intBound ≤ (a.toNat : Int) * b.toNat ∧ (a.toNat : Int) * b.toNat < intBound := by
    simp only [intBound]
    omega
  have product := gives_toByte (gives_paren (gives_mul h h' fits))
  have e : Ty.uint8.store ((a.toNat : Int) * b.toNat) = (a * b).toNat := by
    rw [UInt8.toNat_mul, Ty.store]
    omega
  rw [e] at product
  exact product

private theorem reaches_entries (v : UInt8) (entries : List (Int8 × Int8)) :
    Reaches p
      (.ready ((entries.map (fun entry => cellAdd entry.1.toInt
        (.toByte (.paren (.binary .mul (.var "counter") (.lit entry.2.toUInt8.toNat)))))
          ++ [clearCurrent]).map .statement
          ++ tasks) [.counter v.toNat] t)
      (.ready tasks [.counter v.toNat]
        ((entries.foldl (fun t entry => t.add entry.1.toInt (entry.2.toUInt8 * v)) t).setCurrent 0)) := by
  induction entries generalizing t with
  | nil => exact reaches_clearCurrent rfl
  | cons entry entries ih =>
    obtain ⟨offset, weight⟩ := entry
    have small : (weight.toUInt8.toNat : Int) < intBound := by
      have := weight.toUInt8.toNat_lt
      simp only [intBound]
      omega
    have product : Gives p [.counter v.toNat] t
        (.toByte (.paren (.binary .mul (.var "counter") (.lit weight.toUInt8.toNat))))
          ⟨.int, (v * weight.toUInt8).toNat⟩ := gives_product rfl (gives_lit small)
    refine (reaches_cellAdd (near_toInt offset) product).trans ?_
    rw [ofInt_toNat, UInt8.mul_comm]
    exact ih

theorem reaches_transfer (entries : List (Int8 × Int8)) :
    ∃ n', Reaches p (.ready ((transferStmts entries).map .statement ++ tasks) [.counter n] t)
      (.ready tasks [.counter n'] (t.transfer entries)) := by
  refine ⟨t.current.toNat, ?_⟩
  have stored : (Place.var "counter").set? tapeLength p.toC.caller (.of [.counter n] t) t.current.toNat
      = some (.of [.counter t.current.toNat] t) := by
    have e := store_toNat t.current
    show some (Scope.of [⟨"counter", .uint8, Ty.uint8.store t.current.toNat⟩] t) = _
    rw [e]
    rfl
  exact (reaches_assign (gives_current rfl) stored).trans (reaches_entries t.current entries)

/-- A variable that holds a byte. -/
def Variable.byte (name : String) (b : UInt8) : Variable := ⟨name, .uint8, b.toNat⟩

private theorem declareAll?_byte {name : String} {e : Expr} {b : UInt8} {rest : List (String × Expr)}
    (h : Gives p locals t e ⟨.int, b.toNat⟩) :
    declareAll? tapeLength p.toC.caller .uint8 ((name, e) :: rest) (.of locals t)
      = declareAll? tapeLength p.toC.caller .uint8 rest (.of (.byte name b :: locals) t) := by
  rw [declareAll?_cons h, store_toNat]
  rfl

private theorem gives_sum {e e' : Expr} {a b : UInt8} (h : Gives p locals t e ⟨.int, a.toNat⟩)
    (h' : Gives p locals t e' ⟨.int, b.toNat⟩) :
    Gives p locals t (.toByte (.paren (.binary .add e e'))) ⟨.int, (a + b).toNat⟩ := by
  have := a.toNat_lt
  have := b.toNat_lt
  have fits : -intBound ≤ (a.toNat : Int) + b.toNat ∧ (a.toNat : Int) + b.toNat < intBound := by
    simp only [intBound]
    omega
  have sum := gives_toByte (gives_paren (gives_add h h' fits))
  have e : Ty.uint8.store ((a.toNat : Int) + b.toNat) = (a + b).toNat := by
    rw [UInt8.toNat_add, Ty.store]
    omega
  rw [e] at sum
  exact sum

private theorem near_small {o : Int} (h : 0 ≤ o ∧ o < 5) : -intBound ≤ o ∧ o < intBound := by
  simp only [intBound]
  omega

/-- What the third cell gets from a multiplication. -/
private theorem gives_multiplied (p : Program) (locals : List Variable) (t : Tape) {a b r m : UInt8} (nonzero : a ≠ 0)
    (ha : Gives p locals t (.var "a") ⟨.int, a.toNat⟩) (hb : Gives p locals t (.var "b") ⟨.int, b.toNat⟩)
    (hr : Gives p locals t (.var "r") ⟨.int, r.toNat⟩) (hm : Gives p locals t (.var "m") ⟨.int, m.toNat⟩) :
    ∃ x, UInt8.ofInt x = r + b + (a - 1) * m ∧
      Gives p locals t (.toByte (.paren (.binary .add (.binary .add (.var "r") (.var "b"))
        (.binary .mul (.paren (.binary .sub (.var "a") (.lit 1))) (.var "m"))))) ⟨.int, x⟩ := by
  have := a.toNat_lt
  have := b.toNat_lt
  have := r.toNat_lt
  have := m.toNat_lt
  have pos : 0 < a.toNat := UInt8.pos_iff_ne_zero.2 nonzero
  have difference : Gives p locals t (.binary .sub (.var "a") (.lit 1)) ⟨.int, a.toNat - 1⟩ := by
    refine gives_sub ha (gives_lit (by decide)) ?_
    simp only [intBound]
    omega
  have bounds : 0 ≤ ((a.toNat : Int) - 1) * m.toNat ∧ ((a.toNat : Int) - 1) * m.toNat ≤ 255 * 255 :=
    ⟨Int.mul_nonneg (by omega) (by omega), Int.mul_le_mul (by omega) (by omega) (by omega) (by omega)⟩
  have product := gives_mul (gives_paren difference) hm (by simp only [intBound]; omega)
  have sum := gives_add hr hb (by simp only [intBound]; omega)
  have total := gives_add sum product (by simp only [intBound]; omega)
  refine ⟨_, ?_, gives_toByte (gives_paren total)⟩
  rw [ofInt_store, Int.sub_eq_add_neg]
  simp only [UInt8.ofInt_add, UInt8.ofInt_mul, ofInt_toNat, UInt8.ofInt_neg_one, UInt8.sub_eq_add_neg]

/-- A block that is only for a cell that is not zero, with variables of its own. -/
private theorem reaches_guarded {body : List Stmt} {t' : Tape} (inner : List Variable)
    (zero : t.current = 0 → t' = t)
    (nonzero : t.current ≠ 0 → Reaches p (.ready (body.map .statement ++ .leave 1 :: tasks) [.counter n] t)
      (.ready (.leave 1 :: tasks) (inner ++ [.counter n]) t')) :
    Reaches p (.ready (.statement (.ifThen current (.block body)) :: tasks) [.counter n] t)
      (.ready tasks [.counter n] t') := by
  have test : Reaches p (.ready (.statement (.ifThen current (.block body)) :: tasks) [.counter n] t)
      (.ready (if t.current = 0 then tasks else .statement (.block body) :: tasks) [.counter n] t) :=
    reaches_ifThen_current rfl
  by_cases h : t.current = 0
  · rw [if_pos h] at test
    rw [zero h]
    exact test
  · rw [if_neg h] at test
    exact test.trans (reaches_block.trans ((nonzero h).trans (reaches_leave inner [.counter n])))

theorem reaches_multiply :
    Reaches p (.ready (.statement multiplyStmt :: tasks) [.counter n] t) (.ready tasks [.counter n] t.multiply) := by
  let m := t.get 1 + t.get 3
  let declared : List Variable :=
    [.byte "t" (t.get 3), .byte "r" (t.get 2), .byte "b" (t.get 1), .byte "a" t.current, .counter n]
  refine reaches_guarded [.byte "m" m, .byte "t" (t.get 3), .byte "r" (t.get 2), .byte "b" (t.get 1),
    .byte "a" t.current] (fun zero => if_pos zero) fun nonzero => ?_
  rw [Tape.multiply, if_neg nonzero]
  have first : declareAll? tapeLength p.toC.caller .uint8
      [("a", current), ("b", cellGet 1), ("r", cellGet 2), ("t", cellGet 3)] (.of [.counter n] t)
        = some (.of declared t) := by
    rw [declareAll?_byte (gives_current rfl), declareAll?_byte (gives_cellGet (near_small (by decide))),
      declareAll?_byte (gives_cellGet (near_small (by decide))),
      declareAll?_byte (gives_cellGet (near_small (by decide)))]
    rfl
  have sum : Gives p declared t (.toByte (.paren (.binary .add (.var "b") (.var "t")))) ⟨.int, m.toNat⟩ :=
    gives_sum rfl rfl
  have factor : Gives p (.byte "m" m :: declared) t (.var "m") ⟨.int, m.toNat⟩ := rfl
  obtain ⟨x, hx, product⟩ := gives_multiplied p (.byte "m" m :: declared) (t.set 1 m) nonzero rfl rfl rfl rfl
  refine (reaches_declare first).trans ?_
  refine (reaches_declare (declareAll?_byte sum)).trans ?_
  refine (reaches_cellSet (near_small (by decide)) factor).trans ?_
  rw [ofInt_toNat]
  refine (reaches_cellSet (near_small (by decide)) product).trans ?_
  rw [hx]
  refine (reaches_cellSet (near_small (by decide)) gives_zero).trans ?_
  exact reaches_clearCurrent rfl

/-- The loop of an exponentiation multiplies as often as the cell under the cursor said. -/
private theorem reaches_countDown (base : UInt8) {k : Nat} (small : k < 256) (r : UInt8) :
    Reaches p
      (.ready (.statement (.countDown "e"
          (.assign (.var "r") (.toByte (.paren (.binary .mul (.var "r") (.var "base"))))))
        :: tasks) [.byte "r" r, .byte "base" base, ⟨"e", .uint8, k⟩, .counter n] t)
      (.ready tasks [.byte "r" (Nat.repeat (· * base) k r), .byte "base" base, ⟨"e", .uint8, 255⟩, .counter n]
        t) := by
  induction k generalizing r with
  | zero => exact reaches_of_carryOut rfl rfl
  | succ k ih =>
    let locals (r : UInt8) : List Variable := [.byte "r" r, .byte "base" base, ⟨"e", .uint8, k⟩, .counter n]
    have lost : Ty.uint8.store (((k + 1 : Nat) : Int) - 1) = k := by
      rw [Ty.store]
      omega
    have round : Reaches p
        (.ready (.statement (.countDown "e"
            (.assign (.var "r") (.toByte (.paren (.binary .mul (.var "r") (.var "base"))))))
          :: tasks) [.byte "r" r, .byte "base" base, ⟨"e", .uint8, (k + 1 : Nat)⟩, .counter n] t)
        (.ready (.statement (.assign (.var "r") (.toByte (.paren (.binary .mul (.var "r") (.var "base")))))
          :: .statement (.countDown "e" (.assign (.var "r")
            (.toByte (.paren (.binary .mul (.var "r") (.var "base")))))) :: tasks) (locals r) t) := by
      refine reaches_of_carryOut rfl ?_
      show some (if ((k + 1 : Nat) : Int) = 0 then _ else _, (⟨[_, _, ⟨"e", .uint8, _⟩, _], _, _⟩ : Scope)) = _
      rw [if_neg (by omega), lost]
      rfl
    have product : Gives p (locals r) t (.toByte (.paren (.binary .mul (.var "r") (.var "base"))))
        ⟨.int, (r * base).toNat⟩ := gives_product rfl rfl
    have stored : (Place.var "r").set? tapeLength p.toC.caller (.of (locals r) t) (r * base).toNat
        = some (.of (locals (r * base)) t) := by
      show some (Scope.of [⟨"r", .uint8, Ty.uint8.store (r * base).toNat⟩, _, _, _] t) = _
      rw [store_toNat]
      rfl
    have later := ih (Nat.lt_of_succ_lt small) (r * base)
    rw [repeat_shift (· * base) k r] at later
    exact round.trans ((reaches_assign product stored).trans later)

theorem reaches_exponent :
    Reaches p (.ready (.statement exponentStmt :: tasks) [.counter n] t) (.ready tasks [.counter n] t.exponent) := by
  let result := Nat.repeat (· * t.get 1) t.current.toNat (t.get 2)
  let locals : List Variable := [.byte "r" result, .byte "base" (t.get 1), ⟨"e", .uint8, 255⟩, .counter n]
  refine reaches_guarded [.byte "r" result, .byte "base" (t.get 1), ⟨"e", .uint8, 255⟩]
    (fun zero => if_pos zero) fun nonzero => ?_
  rw [Tape.exponent, if_neg nonzero]
  have first : declareAll? tapeLength p.toC.caller .uint8 [("e", current), ("base", cellGet 1), ("r", cellGet 2)]
      (.of [.counter n] t)
        = some (.of [.byte "r" (t.get 2), .byte "base" (t.get 1), .byte "e" t.current, .counter n] t) := by
    rw [declareAll?_byte (gives_current rfl), declareAll?_byte (gives_cellGet (near_small (by decide))),
      declareAll?_byte (gives_cellGet (near_small (by decide)))]
    rfl
  have value : Gives p locals t (.var "r") ⟨.int, result.toNat⟩ := rfl
  refine (reaches_declare first).trans ?_
  refine (reaches_countDown (t.get 1) t.current.toNat_lt (t.get 2)).trans ?_
  refine (reaches_cellSet (near_small (by decide)) value).trans ?_
  rw [ofInt_toNat]
  refine (reaches_cellSet (near_small (by decide)) gives_zero).trans ?_
  refine (reaches_cellSet (near_small (by decide)) gives_zero).trans ?_
  exact reaches_clearCurrent rfl

/-- Unsigned arithmetic on small numbers. -/
private theorem gives_unsigned {op : Op} (hop : op ≠ .and) {left right : Expr} {x y z : Nat}
    (hl : Gives p locals t left ⟨.unsigned, x⟩) (hr : Gives p locals t right ⟨.unsigned, y⟩) (hx : x ≤ 256)
    (hy : y ≤ 256) (hz : z ≤ 256) (h : op.value? .unsigned x y = Ty.unsigned.result? z) :
    Gives p locals t (.binary op left right) ⟨.unsigned, z⟩ := by
  have store {k : Nat} (hk : k ≤ 256) : (k : Int) % unsignedRange = k := by
    simp only [unsignedRange]
    omega
  have value := eval?_binary hop hl hr
  have e : (Ty.unsigned.common .unsigned) = .unsigned := rfl
  simp only [e, Ty.store, store hx, store hy] at value
  rw [Gives, value, h, Ty.result?, store hz]

theorem divisor_bounds (d : UInt8) : 0 < Tape.divisor d ∧ Tape.divisor d ≤ 256 := by
  have := d.toNat_lt
  rw [Tape.divisor]
  split
  · omega
  · rename_i nonzero
    have : 0 < d.toNat := UInt8.pos_iff_ne_zero.2 nonzero
    omega

private theorem gives_divisor :
    Gives p locals t (.cond (cellGet 1) (cellGet 1) (.lit 256)) ⟨.int, Tape.divisor (t.get 1)⟩ := by
  have cell : Gives p locals t (cellGet 1) ⟨.int, (t.get 1).toNat⟩ := gives_cellGet (near_small (by decide))
  rw [Gives, eval?_cond cell, Tape.divisor]
  by_cases zero : t.get 1 = 0
  · rw [zero]
    rfl
  · have : (t.get 1).toNat ≠ 0 := fun h => zero (UInt8.toNat.inj h)
    rw [if_neg (by simpa using this), if_neg zero]
    exact cell

theorem reaches_divide :
    Reaches p (.ready (.statement divideStmt :: tasks) [.counter n] t) (.ready tasks [.counter n] t.divide) := by
  let k := t.current.toNat
  let d := Tape.divisor (t.get 1)
  let locals : List Variable := [⟨"d", .unsigned, d⟩, ⟨"n", .unsigned, k⟩, .counter n]
  have small : k < 256 := t.current.toNat_lt
  obtain ⟨pos, le⟩ := divisor_bounds (t.get 1)
  refine reaches_guarded [⟨"d", .unsigned, d⟩, ⟨"n", .unsigned, k⟩] (fun zero => ?_) fun nonzero => ?_
  · rw [Tape.divide, if_pos]
    rw [zero]
    rfl
  · have nonzero' : ¬ t.current.toNat = 0 := fun h => nonzero (UInt8.toNat.inj h)
    rw [Tape.divide, if_neg nonzero']
    have first : declareAll? tapeLength p.toC.caller .unsigned
        [("n", current), ("d", .cond (cellGet 1) (cellGet 1) (.lit 256))] (.of [.counter n] t)
      = some (.of locals t) := by
      have hk : Ty.unsigned.store k = k := by
        simp only [Ty.store, unsignedRange]
        omega
      have hd : Ty.unsigned.store d = d := by
        simp only [Ty.store, unsignedRange]
        omega
      rw [declareAll?_cons (gives_current rfl), declareAll?_cons gives_divisor]
      show some (Scope.of [⟨"d", .unsigned, Ty.unsigned.store d⟩, ⟨"n", .unsigned, Ty.unsigned.store k⟩, _] t) = _
      rw [hk, hd]
    have number (t : Tape) : Gives p locals t (.var "n") ⟨.unsigned, k⟩ := rfl
    have divisor (t : Tape) : Gives p locals t (.var "d") ⟨.unsigned, d⟩ := rfl
    have rest_lt : k % d < d := Nat.mod_lt k pos
    have quotient_le : k / d ≤ k := Nat.div_le_self k d
    have nonzero_d : ¬ (d : Int) = 0 := by omega
    have rest (t : Tape) : Gives p locals t (.binary .mod (.var "n") (.var "d")) ⟨.unsigned, (k % d : Nat)⟩ := by
      refine gives_unsigned (by decide) (number t) (divisor t) (by omega) (by omega) (by omega) ?_
      rw [Op.value?, if_neg nonzero_d]
      rfl
    have quotient (t : Tape) : Gives p locals t (.binary .div (.var "n") (.var "d")) ⟨.unsigned, (k / d : Nat)⟩ := by
      refine gives_unsigned (by decide) (number t) (divisor t) (by omega) (by omega) (by omega) ?_
      rw [Op.value?, if_neg nonzero_d]
      rfl
    have missing (t : Tape) : Gives p locals t (.binary .sub (.var "d") (.binary .mod (.var "n") (.var "d")))
        ⟨.unsigned, (d - k % d : Nat)⟩ := by
      refine gives_unsigned (by decide) (divisor t) (rest t) (by omega) (by omega) (by omega) ?_
      rw [Op.value?, Int.ofNat_sub (Nat.le_of_lt rest_lt)]
    refine (reaches_declare first).trans ?_
    refine (reaches_cellSet (near_small (by decide)) (gives_toByte (gives_paren (missing _)))).trans ?_
    refine (reaches_cellSet (near_small (by decide)) (gives_toByte (gives_paren (rest _)))).trans ?_
    refine (reaches_cellSet (near_small (by decide)) (gives_toByte (gives_paren (quotient _)))).trans ?_
    simp only [ofInt_store, ofInt_natCast]
    exact reaches_clearCurrent rfl

/-- The statements of a closed form leave on the array what the form leaves on the tape. -/
theorem reaches_closed (form : ClosedForm) (n : Int) :
    ∃ n', Reaches p (.ready ((ofClosedForm form).map .statement ++ tasks) [.counter n] t)
      (.ready tasks [.counter n'] (form.apply t)) := by
  have small := t.current.toNat_lt
  cases form with
  | clear => exact ⟨n, reaches_clearCurrent rfl⟩
  | transferAdd target =>
    have once : (1 : Int8).toUInt8 * t.current = t.current := UInt8.one_mul t.current
    have added : Reaches p (.ready (.statement (cellAdd target.toInt current) :: .statement clearCurrent :: tasks)
        [.counter n] t) _ := reaches_cellAdd (near_toInt target) (gives_current rfl)
    rw [ofInt_toNat] at added
    refine ⟨n, ?_⟩
    rw [ClosedForm.apply, Tape.transfer, List.foldl_cons, List.foldl_nil, once]
    exact added.trans (reaches_clearCurrent rfl)
  | transferSub target =>
    have once : (-1 : Int8).toUInt8 * t.current = -t.current := by
      have e : (-1 : Int8).toUInt8 = -1 := rfl
      rw [e]
      grind
    have opposite : Gives p [.counter n] t (.toByte (.neg current))
        ⟨.int, Ty.uint8.store (-(t.current.toNat : Int))⟩ := by
      refine gives_toByte (gives_neg (gives_current rfl) ?_)
      simp only [intBound]
      omega
    have added : Reaches p (.ready (.statement (cellAdd target.toInt (.toByte (.neg current)))
        :: .statement clearCurrent :: tasks) [.counter n] t) _ := reaches_cellAdd (near_toInt target) opposite
    rw [ofInt_store, UInt8.ofInt_neg, ofInt_toNat] at added
    refine ⟨n, ?_⟩
    rw [ClosedForm.apply, Tape.transfer, List.foldl_cons, List.foldl_nil, once]
    exact added.trans (reaches_clearCurrent rfl)
  | multiply => exact ⟨n, reaches_multiply⟩
  | exponent => exact ⟨n, reaches_exponent⟩
  | divide => exact ⟨n, reaches_divide⟩
  | weighted entries => exact reaches_transfer entries

end

end TapeLang.C
