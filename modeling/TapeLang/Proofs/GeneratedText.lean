import TapeLang.C.Check
import TapeLang.Proofs.Backends
import TapeLang.Proofs.Reading

/-!
# The text of a program in C

Whatever the program, its text is read as the file that was printed (`legible_toC`), and the file is well-formed
(`wellFormed_toC`).  Running what the text says does the same as executing the program (`backends_agree`).
-/

namespace TapeLang.C

/-! ### Legibility -/

theorem legible_number (n : Int) : (number n).legible = true := by
  cases n with
  | ofNat n => rfl
  | negSucc n => rfl

private theorem legible_current : current.legible = true := by decide_cbv

private theorem legible_clearCurrent : clearCurrent.legible = true := by decide_cbv

private theorem legible_moveBy (n : Int) : (moveBy (number n)).legible = true := by
  have name : isName "move_by" = true := by decide_cbv
  rw [moveBy, Stmt.legible, name, List.all_cons, legible_number]
  rfl

private theorem legible_cellAdd (o : Int) {e : Expr} (h : e.legible = true) : (cellAdd o e).legible = true := by
  have name : isName "cell_add" = true := by decide_cbv
  rw [cellAdd, Stmt.legible, name, List.all_cons, List.all_cons, legible_number, h]
  rfl

private theorem legible_transfer (entries : List (Int8 × Int8)) : ∀ s ∈ transferStmts entries, s.legible = true := by
  have counter : isName "counter" = true := by decide_cbv
  have store : (Stmt.assign (.var "counter") current).legible = true := by
    rw [Stmt.legible, Place.legible, counter, legible_current]
    rfl
  have product (k : Nat) : (Expr.toByte (.paren (.binary .mul (.var "counter") (.lit k)))).legible = true := by
    simp [Expr.legible, Expr.level, Op.level, counter]
  rw [transferStmts, List.forall_mem_append, List.forall_mem_cons]
  refine ⟨⟨store, fun s hs => ?_⟩, fun s hs => ?_⟩
  · obtain ⟨entry, -, rfl⟩ := List.mem_map.1 hs
    exact legible_cellAdd _ (product _)
  · rw [List.mem_singleton.1 hs]
    exact legible_clearCurrent

private theorem legible_closed (form : ClosedForm) : ∀ s ∈ ofClosedForm form, s.legible = true := by
  have opposite : (Expr.toByte (.neg current)).legible = true := by decide_cbv
  cases form with
  | clear => simp [ofClosedForm, legible_clearCurrent]
  | transferAdd target => simp [ofClosedForm, legible_cellAdd _ legible_current, legible_clearCurrent]
  | transferSub target => simp [ofClosedForm, legible_cellAdd _ opposite, legible_clearCurrent]
  | multiply => exact legibleAll_iff.1 (by decide_cbv)
  | exponent => exact legibleAll_iff.1 (by decide_cbv)
  | divide => exact legibleAll_iff.1 (by decide_cbv)
  | weighted entries => exact legible_transfer entries

mutual

private theorem legible_ofInstruction : (i : Instruction) → ∀ s ∈ ofInstruction i, s.legible = true
  | .move amount => by simp [ofInstruction, legible_moveBy]
  | .add delta offset => by
    have increase (k : Nat) : (Stmt.addAssign (.cell cursor) (.lit k)).legible = true := by
      rw [Stmt.legible, Bool.and_eq_true]
      exact ⟨legible_current, rfl⟩
    rw [ofInstruction]
    split
    · simp [increase]
    · simp [legible_cellAdd _ (e := .lit _) rfl]
  | .print => legibleAll_iff.1 (by decide_cbv)
  | .read => legibleAll_iff.1 (by decide_cbv)
  | .seek step => by
    have plain : (moveBy (number step.toInt)).isDeclaration = false := rfl
    simp [ofInstruction, Stmt.legible, legible_current, legible_moveBy, plain]
  | .closed form => by
    rw [ofInstruction]
    exact legible_closed form
  | .loop body => by
    have inside := legibleAll_iff.2 (legible_ofProgram body)
    simp [ofInstruction, Stmt.legible, legible_current, inside, Stmt.isDeclaration]
  | .block body => by
    have inside := legibleAll_iff.2 (legible_ofProgram body)
    simp [ofInstruction, Stmt.legible, inside]

private theorem legible_ofProgram : (p : List Instruction) → ∀ s ∈ ofProgram p, s.legible = true
  | [] => by simp [ofProgram]
  | i :: rest => by
    rw [ofProgram, List.forall_mem_append]
    exact ⟨legible_ofInstruction i, legible_ofProgram rest⟩

end

/-- The file of a program can be read from its text. -/
theorem legible_toC (p : Program) : p.toC.legible = true := by
  have functions : helpers.all Function.legible = true := by decide_cbv
  have start : legibleAll opening = true := by decide_cbv
  have main : legibleAll (opening ++ ofProgram p) = true := by
    rw [legibleAll_iff, List.forall_mem_append]
    exact ⟨legibleAll_iff.1 start, legible_ofProgram p⟩
  rw [File.legible, Bool.and_eq_true]
  exact ⟨functions, main⟩

/-! ### Well-formedness -/

/-- What can be used in `main`, in a block that has declared some variables of its own. -/
private def inMain (block : List String) : Context := ⟨helpers, .int, true, ["counter"], block⟩

private theorem check_number (c : Context) {n : Int} (h : -intBound ≤ n ∧ n < intBound) :
    (number n).check c = true := by
  simp only [intBound] at h
  cases n with
  | ofNat k =>
    have small : (k : Int) < longBound := by
      have : Int.ofNat k = (k : Int) := rfl
      simp only [longBound]
      omega
    rcases constant?_eq small with hk | hk <;> rw [number, Expr.check, hk] <;> rfl
  | negSucc k =>
    have small : ((k + 1 : Nat) : Int) < longBound := by
      have : Int.negSucc k = -((k + 1 : Nat) : Int) := rfl
      simp only [longBound]
      omega
    rcases constant?_eq small with hk | hk <;> rw [number, Expr.check, Expr.check, hk] <;> rfl

private theorem check_byte (c : Context) (b : UInt8) : (Expr.lit b.toNat).check c = true := by
  have small : (b.toNat : Int) < intBound := by
    have := b.toNat_lt
    simp only [intBound]
    omega
  rw [Expr.check, constant?, if_pos small]
  rfl

variable {block : List String}

private theorem check_current : current.check (inMain block) = true := rfl

private theorem check_clearCurrent : clearCurrent.check? (inMain block) = some (inMain block) := rfl

private theorem check_moveBy (amount : Int32) :
    (moveBy (number amount.toInt)).check? (inMain block) = some (inMain block) := by
  have known : (inMain block).canCall "move_by" 1 false = true := rfl
  simp [moveBy, Stmt.check?, known, check_number _ (near_toInt32 amount)]

private theorem check_cellAdd (o : Int8) {e : Expr} (h : e.check (inMain block) = true) :
    (cellAdd o.toInt e).check? (inMain block) = some (inMain block) := by
  have known : (inMain block).canCall "cell_add" 2 false = true := rfl
  simp [cellAdd, Stmt.check?, known, check_number _ (near_toInt o), h]

theorem checkAll?_of_forall {c : Context} {ss : List Stmt} (h : ∀ s ∈ ss, s.check? c = some c) :
    checkAll? c ss = some c := by
  induction ss with
  | nil => rfl
  | cons s ss ih =>
    rw [List.forall_mem_cons] at h
    rw [checkAll?, h.1]
    exact ih h.2

private theorem check_transfer (entries : List (Int8 × Int8)) :
    ∀ s ∈ transferStmts entries, s.check? (inMain block) = some (inMain block) := by
  have product (b : UInt8) :
      (Expr.toByte (.paren (.binary .mul (.var "counter") (.lit b.toNat)))).check (inMain block) = true := by
    have counter : (Expr.var "counter").check (inMain block) = true := rfl
    rw [Expr.check, Expr.check, Expr.check, counter, check_byte]
    rfl
  rw [transferStmts, List.forall_mem_append, List.forall_mem_cons]
  refine ⟨⟨rfl, fun s hs => ?_⟩, fun s hs => ?_⟩
  · obtain ⟨entry, -, rfl⟩ := List.mem_map.1 hs
    exact check_cellAdd entry.1 (product _)
  · rw [List.mem_singleton.1 hs]
    exact check_clearCurrent

private theorem check_closed (form : ClosedForm) :
    ∀ s ∈ ofClosedForm form, s.check? (inMain block) = some (inMain block) := by
  have opposite : (Expr.toByte (.neg current)).check (inMain block) = true := rfl
  cases form with
  | clear => simp [ofClosedForm, check_clearCurrent]
  | transferAdd target => simp [ofClosedForm, check_cellAdd _ check_current, check_clearCurrent]
  | transferSub target => simp [ofClosedForm, check_cellAdd _ opposite, check_clearCurrent]
  | multiply => exact List.forall_mem_singleton.2 rfl
  | exponent => exact List.forall_mem_singleton.2 rfl
  | divide => exact List.forall_mem_singleton.2 rfl
  | weighted entries => exact check_transfer entries

mutual

/-- The statements of an instruction declare nothing outside their own blocks. -/
private theorem check_ofInstruction (block : List String) :
    (i : Instruction) → ∀ s ∈ ofInstruction i, s.check? (inMain block) = some (inMain block)
  | .move amount => by simp [ofInstruction, check_moveBy]
  | .add delta offset => by
    have increase : (Stmt.addAssign (.cell cursor) (.lit delta.toUInt8.toNat)).check? (inMain block)
        = some (inMain block) := by
      have place : (Place.cell cursor).check (inMain block) = true := rfl
      rw [Stmt.check?, place, check_byte]
      rfl
    rw [ofInstruction]
    split
    · simp [increase]
    · simp [check_cellAdd _ (check_byte _ _)]
  | .print => List.forall_mem_singleton.2 rfl
  | .read => List.forall_mem_singleton.2 rfl
  | .seek step => by
    have free : (inMain block).free = true := rfl
    simp [ofInstruction, Stmt.check?, free, check_current, check_moveBy]
  | .closed form => by
    rw [ofInstruction]
    exact check_closed form
  | .loop body => by
    have free : (inMain block).free = true := rfl
    have inside : checkAll? (inMain block).inner (ofProgram body) = some (inMain []) :=
      checkAll?_of_forall (check_ofProgram [] body)
    simp [ofInstruction, Stmt.check?, free, check_current, inside]
  | .block body => by
    have inside : checkAll? (inMain block).inner (ofProgram body) = some (inMain []) :=
      checkAll?_of_forall (check_ofProgram [] body)
    simp [ofInstruction, Stmt.check?, inside]

private theorem check_ofProgram (block : List String) :
    (p : List Instruction) → ∀ s ∈ ofProgram p, s.check? (inMain block) = some (inMain block)
  | [] => by simp [ofProgram]
  | i :: rest => by
    rw [ofProgram, List.forall_mem_append]
    exact ⟨check_ofInstruction block i, check_ofProgram block rest⟩

end

/-- The file of a program observes what C demands of it. -/
theorem wellFormed_toC (p : Program) : p.toC.WellFormed := by
  have length : decide (0 < tapeLength ∧ (tapeLength : Int) < intBound) = true := by decide_cbv
  have functions : helpers.all Function.check = true := by decide_cbv
  have names : decide (helpers.map Function.name).Nodup = true := by decide_cbv
  have main : checkAll? (inMain ["counter"]) (ofProgram p ++ [.flush, .ret (.lit 0)])
      = some (inMain ["counter"]) := by
    refine checkAll?_of_forall ?_
    rw [List.forall_mem_append]
    refine ⟨check_ofProgram ["counter"] p, fun s hs => ?_⟩
    rcases List.mem_cons.1 hs with rfl | hs
    · rfl
    · rw [List.mem_singleton.1 hs]
      rfl
  have opened : checkAll? ⟨helpers, .int, true, [], []⟩ (opening ++ ofProgram p ++ [.flush, .ret (.lit 0)])
      = checkAll? (inMain ["counter"]) (ofProgram p ++ [.flush, .ret (.lit 0)]) := rfl
  show File.check ⟨tapeLength, helpers, opening ++ ofProgram p⟩ = true
  rw [File.check, length, functions, names, opened, main]
  rfl

end TapeLang.C

namespace TapeLang

open C

/-- Whatever the program and the input, the text of the program in C can be read as a file, the file is well-formed,
and run on a zeroed tape it has the same dealings with the streams as the execution of the program on a fresh machine.
One of them ends if and only if the other does.  Then both have halted, the file without doing anything undefined,
with the same streams, cells and cursor. -/
theorem backends_agree (p : Program) (input : List UInt8) :
    ∃ f, File.ofText? p.toC.render = some f ∧ f.WellFormed ∧
      Process.SameEvents Execution.process (Execution.start p .fresh) f.process (State.start f) (.ofInput input) ∧
      ((∃ r, Execution.process.Ends (Execution.start p .fresh) (.ofInput input) r) ↔
        ∃ r, f.process.Ends (State.start f) (.ofInput input) r) ∧
      ∀ r r', Execution.process.Ends (Execution.start p .fresh) (.ofInput input) r →
        f.process.Ends (State.start f) (.ofInput input) r' →
        ∃ s a io, r = .halted s io ∧ r' = .halted a io ∧ a.stuck = false ∧
          a.scope.tape = s.machine.tape.cells.toArray ∧ a.scope.cursor = s.machine.tape.cursor := by
  have both := C.bisimulation p
  have start := follows_start p
  refine ⟨p.toC, File.ofText?_render (legible_toC p), wellFormed_toC p, both.sameEvents start _,
    both.ends_iff start, ?_⟩
  intro r r' ends ends'
  obtain ⟨s, io, -, -, rfl⟩ := ends.halted_of_sound (Streams.ofInput_sound input)
  cases both.corresponds start ends ends' with
  | @halted _ a _ same => exact ⟨s, a, io, rfl, rfl, same.defined, same.cells, same.cursor⟩

end TapeLang
