import TapeLang.Proofs.LoopExit
import TapeLang.Proofs.RawTape

/-!
# Nothing goes wrong on the machine

On a raw machine an operation can meet a mishap, and an execution that does is over.  Started on a valid raw machine,
no sequence of operations meets one, as long as the caller's own sums with the cursor fit into a word; the machine
stays valid, does what the machine of this library does, and every instruction without a body changes only cells that
it names (`machine_stays_valid`).

The executions of both machines are the same process seen through `State.raw` (`run_raw`).  What an instruction
changes is said along the few states that it goes through (`Amid`).
-/

namespace TapeLang

/-! ### The raw machine -/

structure RawMachine where
  tape : RawTape
  counters : Counters

def RawMachine.Valid (m : RawMachine) : Prop := m.tape.Valid

def Machine.raw (m : Machine) : RawMachine := ⟨m.tape.raw, m.counters⟩

namespace RawExecution

open Execution (Phase)

structure State where
  phase : Phase
  machine : RawMachine

/-- Where the byte to be printed is missing, nothing is asked for, and the mishap follows. -/
def request (s : State) : Request :=
  match s.phase with
  | .running [] => .flush
  | .running (.print :: _) =>
    match s.machine.tape.current with
    | .ok value => .write value
    | .error _ => .silent
  | .running (.read :: _) => .flush
  | .running _ => .silent
  | .awaiting _ => .read
  | .finished => .halt

def carryOut (i : Instruction) (rest : Program) (m : RawMachine) : Except Mishap State :=
  match i with
  | .move amount => do
    let tape ← m.tape.move amount.toInt
    pure ⟨.running rest, ⟨tape, { m.counters with moves := m.counters.moves + 1 }⟩⟩
  | .add delta offset => do
    let tape ← m.tape.add offset.toInt delta.toUInt8
    pure ⟨.running rest, ⟨tape, { m.counters with adds := m.counters.adds + 1 }⟩⟩
  | .print => do
    let _ ← m.tape.current
    pure ⟨.running rest, ⟨m.tape, { m.counters with prints := m.counters.prints + 1 }⟩⟩
  | .read => .ok ⟨.awaiting rest, m⟩
  | .seek step => do
    let value ← m.tape.current
    if value = 0 then
      pure ⟨.running rest, ⟨m.tape, { m.counters with seeks := m.counters.seeks + 1 }⟩⟩
    else
      let tape ← m.tape.move step.toInt
      pure ⟨.running (.seek step :: rest), ⟨tape, m.counters⟩⟩
  | .closed form => do
    let tape ← m.tape.apply form
    pure ⟨.running rest, ⟨tape, { m.counters with closedForms := m.counters.closedForms + 1 }⟩⟩
  | .loop body => do
    let value ← m.tape.current
    if value = 0 then pure ⟨.running rest, m⟩
    else
      pure ⟨.running (body ++ .loop body :: rest), ⟨m.tape, { m.counters with passes := m.counters.passes + 1 }⟩⟩
  | .block body => .ok ⟨.running (body ++ rest), m⟩

def takeIn (answer : Option UInt8) (rest : Program) (m : RawMachine) : Except Mishap State := do
  let tape ← match answer with
    | some byte => m.tape.setCurrent byte
    | none => pure m.tape
  pure ⟨.running rest, ⟨tape, { m.counters with reads := m.counters.reads + 1 }⟩⟩

def resume (s : State) (answer : Option UInt8) : Except Mishap State :=
  match s with
  | ⟨.running [], m⟩ => .ok ⟨.finished, m⟩
  | ⟨.running (i :: rest), m⟩ => carryOut i rest m
  | ⟨.awaiting rest, m⟩ => takeIn answer rest m
  | ⟨.finished, m⟩ => .ok ⟨.finished, m⟩

/-- After a mishap there is no next step. -/
def process : Process (Except Mishap State) where
  request
    | .ok s => request s
    | .error _ => .halt
  resume s answer := s.bind (resume · answer)

/-- The state after at most so many steps of a program on a machine, or the mishap. -/
def after (steps : Nat) (p : Program) (m : RawMachine) (io : Streams) : Except Mishap State :=
  (process.run steps (.ok ⟨.running p, m⟩) io).state

end RawExecution

/-! ### One process seen through another -/

/-- The outcome with another view of the state. -/
def Outcome.map {σ τ : Type} (f : σ → τ) : Outcome σ → Outcome τ
  | .halted s io => .halted (f s) io
  | .failed fault s io => .failed fault (f s) io
  | .unfinished s io => .unfinished (f s) io

namespace Process

variable {σ τ : Type} {P : Process σ} {Q : Process τ} {f : σ → τ}

theorem step_map (request : ∀ s, Q.request (f s) = P.request s)
    (resume : ∀ s answer, Q.resume (f s) answer = f (P.resume s answer)) (s : σ) (io : Streams) :
    Q.step (f s) io = (P.step s io).map f := by
  by_cases halt : P.request s = .halt
  · rw [step_of_halt halt, step_of_halt ((request s).trans halt)]
    rfl
  · rw [step_of_serve halt, step_of_serve (by rwa [request s]), request s]
    rcases (P.request s).serve io with ⟨_ | answer, io'⟩
    · rfl
    · exact congrArg (Outcome.unfinished · io') (resume s answer)

/-- If the states of one process are states of the other that ask and go on in the same way, then so are the runs. -/
theorem run_map (request : ∀ s, Q.request (f s) = P.request s)
    (resume : ∀ s answer, Q.resume (f s) answer = f (P.resume s answer)) (n : Nat) (s : σ) (io : Streams) :
    Q.run n (f s) io = (P.run n s io).map f := by
  induction n generalizing s io with
  | zero => rfl
  | succ n ih =>
    rw [run_succ, run_succ, step_map request resume]
    cases P.step s io with
    | unfinished s' io' => exact ih s' io'
    | halted s' io' | failed fault s' io' => rfl

end Process

namespace Execution

variable {t : Tape} {m : Machine} {rest : Program}

def State.raw (s : State) : RawExecution.State := ⟨s.phase, s.machine.raw⟩

theorem request_raw (s : State) : RawExecution.request s.raw = request s := by
  rcases s with ⟨phase, m⟩
  cases phase with
  | running todo =>
    cases todo with
    | nil => rfl
    | cons i rest =>
      cases i with
      | print =>
        have current : m.raw.tape.current = .ok m.tape.current := m.tape.raw_current
        simp only [RawExecution.request, State.raw, current, request]
      | _ => rfl
  | awaiting todo => rfl
  | finished => rfl

theorem near_toInt32 (n : Int32) : -2 ^ 31 ≤ n.toInt ∧ n.toInt < 2 ^ 31 := ⟨n.le_toInt, n.toInt_lt⟩

theorem carryOut_raw (i : Instruction) (rest : Program) (m : Machine) :
    RawExecution.carryOut i rest m.raw = .ok (carryOut i rest m).raw := by
  have current : m.raw.tape.current = .ok m.tape.current := m.tape.raw_current
  have move (n : Int32) : m.raw.tape.move n.toInt = .ok (m.tape.move n.toInt).raw :=
    Tape.raw_move (m.tape.fitsWord_of_near (near_toInt32 n))
  cases i with
  | move amount =>
    rw [RawExecution.carryOut, move, ok_bind]
    rfl
  | add delta offset =>
    have add := Tape.raw_add (m.tape.fitsWord_of_near (Tape.near_toInt8 offset)) delta.toUInt8
    rw [RawExecution.carryOut, Machine.raw, add, ok_bind]
    rfl
  | print =>
    rw [RawExecution.carryOut, current, ok_bind]
    rfl
  | read => rfl
  | seek step =>
    rw [RawExecution.carryOut, current, ok_bind, carryOut]
    by_cases zero : m.tape.current = 0
    · rw [if_pos zero, if_pos zero]
      rfl
    · rw [if_neg zero, if_neg zero, move, ok_bind]
      rfl
  | closed form =>
    rw [RawExecution.carryOut, Machine.raw, m.tape.raw_apply, ok_bind]
    rfl
  | loop body =>
    rw [RawExecution.carryOut, current, ok_bind, carryOut]
    by_cases zero : m.tape.current = 0
    · rw [if_pos zero, if_pos zero]
      rfl
    · rw [if_neg zero, if_neg zero]
      rfl
  | block body => rfl

theorem takeIn_raw (answer : Option UInt8) (rest : Program) (m : Machine) :
    RawExecution.takeIn answer rest m.raw = .ok (State.raw ⟨.running rest, takeIn answer m⟩) := by
  cases answer with
  | none => rfl
  | some byte =>
    have written := m.tape.raw_setCurrent byte
    simp only [RawExecution.takeIn, Machine.raw, written, ok_bind]
    rfl

theorem resume_raw (s : State) (answer : Option UInt8) :
    RawExecution.resume s.raw answer = .ok (resume s answer).raw := by
  rcases s with ⟨phase, m⟩
  cases phase with
  | running todo =>
    cases todo with
    | nil => rfl
    | cons i rest => exact carryOut_raw i rest m
  | awaiting todo => exact takeIn_raw answer todo m
  | finished => rfl

/-- An execution on a raw machine that comes from a machine is the execution on that machine. -/
theorem run_raw (n : Nat) (p : Program) (m : Machine) (io : Streams) :
    RawExecution.process.run n (.ok ⟨.running p, m.raw⟩) io
      = (process.run n (start p m) io).map fun s => .ok s.raw :=
  Process.run_map (P := process) (Q := RawExecution.process) (f := fun s => Except.ok s.raw) request_raw resume_raw n
    (start p m) io

theorem after_raw (n : Nat) (p : Program) (m : Machine) (io : Streams) :
    RawExecution.after n p m.raw io = .ok (process.run n (start p m) io).state.raw := by
  rw [RawExecution.after, run_raw]
  cases process.run n (start p m) io <;> rfl

end Execution

/-! ### Sequences of operations -/

/-- What can be done with a machine from outside. -/
inductive Operation
  | moveBy (amount : Int)
  | moveTo (n : Nat)
  | setCurrent (value : UInt8)
  | set (offset : Int) (value : UInt8)
  | add (offset : Int) (delta : UInt8)
  /-- At most so many steps of a program; the machine stays as it is then, also after a failure. -/
  | execute (p : Program) (io : Streams) (steps : Nat)

namespace Operation

/-- The sum that the operation makes with the cursor fits into a word. -/
def Fits (m : RawMachine) : Operation → Prop
  | moveBy amount => FitsWord (m.tape.cursor + amount)
  | set offset _ | add offset _ => FitsWord (m.tape.cursor + offset)
  | _ => True

def apply (m : Machine) : Operation → Machine
  | moveBy amount => { m with tape := m.tape.move amount }
  | moveTo n => { m with tape := m.tape.moveTo n }
  | setCurrent value => { m with tape := m.tape.setCurrent value }
  | set offset value => { m with tape := m.tape.set offset value }
  | add offset delta => { m with tape := m.tape.add offset delta }
  | execute p io steps => (Execution.process.run steps (Execution.start p m) io).state.machine

/-- The operation on a raw machine. -/
def perform (m : RawMachine) : Operation → Except Mishap RawMachine
  | moveBy amount => (m.tape.move amount).map fun tape => { m with tape := tape }
  | moveTo n => (m.tape.moveTo n).map fun tape => { m with tape := tape }
  | setCurrent value => (m.tape.setCurrent value).map fun tape => { m with tape := tape }
  | set offset value => (m.tape.set offset value).map fun tape => { m with tape := tape }
  | add offset delta => (m.tape.add offset delta).map fun tape => { m with tape := tape }
  | execute p io steps => (RawExecution.after steps p m io).map RawExecution.State.machine

theorem perform_raw {m : Machine} {operation : Operation} (fits : operation.Fits m.raw) :
    operation.perform m.raw = .ok (operation.apply m).raw := by
  cases operation with
  | moveBy amount =>
    rw [perform, Machine.raw, Tape.raw_move fits]
    rfl
  | moveTo n =>
    rw [perform, Machine.raw, m.tape.raw_moveTo]
    rfl
  | setCurrent value =>
    rw [perform, Machine.raw, m.tape.raw_setCurrent]
    rfl
  | set offset value =>
    rw [perform, Machine.raw, Tape.raw_set fits]
    rfl
  | add offset delta =>
    rw [perform, Machine.raw, Tape.raw_add fits]
    rfl
  | execute p io steps =>
    rw [perform, Execution.after_raw]
    rfl

end Operation

/-! ### What an instruction changes -/

/-- The offsets of the cells that the closed form writes. -/
def ClosedForm.targets : ClosedForm → List Int
  | clear => [0]
  | transferAdd target | transferSub target => [0, target.toInt]
  | multiply | divide => [0, 1, 2, 3]
  | exponent => [0, 2, 3, 4]
  | weighted entries => 0 :: entries.map fun entry => entry.1.toInt

/-- The offsets of the cells that the instruction itself writes. -/
def Instruction.targets : Instruction → List Int
  | .add _ offset => [offset.toInt]
  | .read => [0]
  | .closed form => form.targets
  | _ => []

namespace Tape

/-- The cursor is the same, and so is every cell but those at the given offsets. -/
structure Keeps (targets : List Int) (t t' : Tape) : Prop where
  cursor : t'.cursor = t.cursor
  get : ∀ o ∉ targets, t'.get o = t.get o

variable {targets : List Int} {t t' t'' : Tape} {o : Int}

theorem Keeps.refl : Keeps targets t t := ⟨rfl, fun _ _ => rfl⟩

theorem Keeps.trans (h : Keeps targets t t') (h' : Keeps targets t' t'') : Keeps targets t t'' :=
  ⟨h'.cursor.trans h.cursor, fun o away => (h'.get o away).trans (h.get o away)⟩

theorem keeps_set (h : o ∈ targets) (t : Tape) (v : UInt8) : Keeps targets t (t.set o v) := by
  refine ⟨cursor_set .., fun o' away => ?_⟩
  rw [get_set, if_neg]
  rintro ⟨rfl, -⟩
  exact away h

theorem keeps_add (h : o ∈ targets) (t : Tape) (v : UInt8) : Keeps targets t (t.add o v) := by
  refine ⟨cursor_add .., fun o' away => ?_⟩
  rw [get_add, if_neg]
  rintro ⟨rfl, -⟩
  exact away h

theorem keeps_setCurrent (h : 0 ∈ targets) (t : Tape) (v : UInt8) : Keeps targets t (t.setCurrent v) := by
  rw [setCurrent_eq_set]
  exact keeps_set h t v

theorem keeps_addAll (entries : List (Int8 × Int8)) (h : ∀ entry ∈ entries, entry.1.toInt ∈ targets) (t : Tape)
    (v : UInt8) : Keeps targets t (t.addAll entries v) := by
  induction entries generalizing t with
  | nil => exact .refl
  | cons entry entries ih =>
    obtain ⟨first, later⟩ := List.forall_mem_cons.1 h
    exact (keeps_add first t _).trans (ih later _)

theorem keeps_transfer (entries : List (Int8 × Int8)) (h : ∀ entry ∈ entries, entry.1.toInt ∈ targets)
    (here : 0 ∈ targets) (t : Tape) : Keeps targets t (t.transfer entries) := by
  rw [transfer_eq]
  exact (keeps_addAll entries h t _).trans (keeps_setCurrent here _ 0)

/-- The arithmetic closed forms write three cells and then the current one. -/
theorem keeps_writes (t : Tape) (a b c : Int) (u v w : UInt8) :
    Keeps [0, a, b, c] t ((((t.set a u).set b v).set c w).setCurrent 0) := by
  have first : Keeps [0, a, b, c] t (t.set a u) := keeps_set (by simp) t u
  have second : Keeps [0, a, b, c] t ((t.set a u).set b v) := first.trans (keeps_set (by simp) _ v)
  have third : Keeps [0, a, b, c] t (((t.set a u).set b v).set c w) := second.trans (keeps_set (by simp) _ w)
  exact third.trans (keeps_setCurrent (by simp) _ 0)

theorem keeps_apply (form : ClosedForm) (t : Tape) : Keeps form.targets t (form.apply t) := by
  cases form with
  | clear => exact keeps_setCurrent (by simp [ClosedForm.targets]) t 0
  | transferAdd target | transferSub target =>
    exact keeps_transfer _ (by simp [ClosedForm.targets]) (by simp [ClosedForm.targets]) t
  | weighted entries =>
    refine keeps_transfer entries (fun entry mem => ?_) List.mem_cons_self t
    exact List.mem_cons_of_mem _ (List.mem_map_of_mem mem)
  | multiply =>
    rw [ClosedForm.apply, multiply]
    split
    · exact .refl
    · exact keeps_writes ..
  | exponent =>
    rw [ClosedForm.apply, exponent]
    split
    · exact .refl
    · exact keeps_writes ..
  | divide =>
    rw [ClosedForm.apply, divide]
    split
    · exact .refl
    · exact keeps_writes ..

/-- A cell that differs stands at one of the offsets. -/
theorem Keeps.of_ne (h : Keeps targets t t') {k : Fin tapeLength} (differs : t'.cells.get k ≠ t.cells.get k) :
    ∃ o ∈ targets, (k : Int) = t.cursor + o := by
  have index : (k : Int) = t.cursor + (k - t.cursor) := by omega
  refine ⟨k - t.cursor, ?_, index⟩
  by_contra away
  have same := h.get _ away
  rw [get_of_index index, get_of_index (by rw [h.cursor]; exact index)] at same
  exact differs same

end Tape

namespace Execution

/-- All cells but those at the targets of the instruction are what they were on the first tape. -/
def Untouched (i : Instruction) (t t' : Tape) : Prop :=
  ∀ k : Fin tapeLength, t'.cells.get k ≠ t.cells.get k → ∃ o ∈ i.targets, (k : Int) = t.cursor + o

/-- The same, said of raw tapes, where there are no cells beyond the last one either. -/
theorem Untouched.exists_target {i : Instruction} {t t' : Tape} (h : Untouched i t t') {k : Nat}
    (differs : t'.raw.cells[k]? ≠ t.raw.cells[k]?) : ∃ o ∈ i.targets, (k : Int) = t.cursor + o := by
  have inside : k < tapeLength := by
    by_contra outside
    have missing (t : Tape) : t.raw.cells[k]? = none := by
      have size := t.valid_raw.size
      exact Array.getElem?_eq_none (size.trans_le (Nat.le_of_not_lt outside))
    exact differs ((missing t').trans (missing t).symm)
  refine h ⟨k, inside⟩ fun same => differs ?_
  have here := t.getElem?_raw ⟨k, inside⟩
  have there := t'.getElem?_raw ⟨k, inside⟩
  rw [← same] at here
  exact there.trans here.symm

theorem untouched_of_cells {i : Instruction} {t t' : Tape} (h : t'.cells = t.cells) : Untouched i t t' :=
  fun _ differs => absurd (by rw [h]) differs

theorem untouched_of_keeps {i : Instruction} {t t' : Tape} (h : t.Keeps i.targets t') : Untouched i t t' :=
  fun _ differs => h.of_ne differs

/-- Where the execution of one instruction without a body can be: before it, in a seek that goes on, before the answer
to a read, or behind it. -/
inductive Amid (i : Instruction) (t : Tape) : State → Prop
  | ahead {c : Counters} : Amid i t ⟨.running [i], ⟨t, c⟩⟩
  | seeking {step : Int32} {t' : Tape} {c : Counters} (is : i = .seek step) (same : t'.cells = t.cells) :
    Amid i t ⟨.running [i], ⟨t', c⟩⟩
  | awaiting {c : Counters} (is : i = .read) : Amid i t ⟨.awaiting [], ⟨t, c⟩⟩
  | done {t' : Tape} {c : Counters} (untouched : Untouched i t t') : Amid i t ⟨.running [], ⟨t', c⟩⟩
  | finished {t' : Tape} {c : Counters} (untouched : Untouched i t t') : Amid i t ⟨.finished, ⟨t', c⟩⟩

variable {i : Instruction} {t : Tape} {s : State}

theorem Amid.untouched (h : Amid i t s) : Untouched i t s.machine.tape := by
  cases h with
  | ahead | awaiting _ => exact untouched_of_cells rfl
  | seeking _ same => exact untouched_of_cells same
  | done untouched | finished untouched => exact untouched

theorem amid_seek {step : Int32} {t' : Tape} (same : t'.cells = t.cells) (c : Counters) :
    Amid (.seek step) t (carryOut (.seek step) [] ⟨t', c⟩) := by
  by_cases zero : t'.current = 0
  · simp only [carryOut, if_pos zero]
    exact .done (untouched_of_cells same)
  · simp only [carryOut, if_neg zero]
    exact .seeking rfl same

theorem amid_carryOut (flat : i.body? = none) (t : Tape) (c : Counters) : Amid i t (carryOut i [] ⟨t, c⟩) := by
  cases i with
  | move amount => exact .done (untouched_of_cells rfl)
  | add delta offset => exact .done (untouched_of_keeps (Tape.keeps_add List.mem_cons_self t _))
  | print => exact .done (untouched_of_cells rfl)
  | read => exact .awaiting rfl
  | seek step => exact amid_seek rfl c
  | closed form => exact .done (untouched_of_keeps (Tape.keeps_apply form t))
  | loop body | block body => cases flat

theorem Amid.resume (flat : i.body? = none) (h : Amid i t s) (answer : Option UInt8) :
    Amid i t (resume s answer) := by
  cases h with
  | ahead => exact amid_carryOut flat t _
  | seeking is same =>
    subst is
    exact amid_seek same _
  | awaiting is =>
    subst is
    cases answer with
    | none => exact .done (untouched_of_cells rfl)
    | some byte => exact .done (untouched_of_keeps (Tape.keeps_setCurrent List.mem_cons_self t byte))
  | done untouched => exact .finished untouched
  | finished untouched => exact .finished untouched

/-- Whatever is read and whatever fails, an instruction without a body changes only cells that it names. -/
theorem untouched_run (flat : i.body? = none) (m : Machine) (io : Streams) (n : Nat) :
    Untouched i m.tape (process.run n (start [i] m) io).state.machine.tape := by
  have amid : Amid i m.tape (process.run n (start [i] m) io).state :=
    Process.invariant_run (fun _ answer h => h.resume flat answer) .ahead n io
  exact amid.untouched

end Execution

/-! ### All that can be done with the machine -/

namespace Operation

/-- All sums that the operations make with the cursor fit into words. -/
def FitAlong (m : RawMachine) : List Operation → Prop
  | [] => True
  | operation :: later => operation.Fits m ∧ ∀ m', operation.perform m = .ok m' → FitAlong m' later

def applyAll (m : Machine) (operations : List Operation) : Machine := operations.foldl apply m

def performAll (m : RawMachine) (operations : List Operation) :
    Except Mishap RawMachine := operations.foldlM perform m

theorem FitAlong.first {m : RawMachine} {operations later : List Operation} (fit : FitAlong m (operations ++ later)) :
    FitAlong m operations := by
  induction operations generalizing m with
  | nil => trivial
  | cons operation operations ih => exact ⟨fit.1, fun m' done => ih (fit.2 m' done)⟩

/-- On a raw machine that comes from a machine, only the sums have to be looked at. -/
theorem fitAlong_cons {m : Machine} {operation : Operation} {later : List Operation} (fits : operation.Fits m.raw)
    (fit : FitAlong (operation.apply m).raw later) : FitAlong m.raw (operation :: later) := by
  refine ⟨fits, fun m' done => ?_⟩
  obtain rfl := Except.ok.inj ((perform_raw fits).symm.trans done)
  exact fit

theorem performAll_raw {m : Machine} {operations : List Operation} (fit : FitAlong m.raw operations) :
    performAll m.raw operations = .ok (applyAll m operations).raw := by
  induction operations generalizing m with
  | nil => rfl
  | cons operation later ih =>
    have first := perform_raw fit.1
    rw [performAll, List.foldlM_cons, first, ok_bind]
    exact ih (fit.2 _ first)

end Operation

theorem RawMachine.Valid.exists_raw {m : RawMachine} (valid : m.Valid) : ∃ u : Machine, u.raw = m := by
  obtain ⟨t, tape⟩ := RawTape.Valid.exists_raw valid
  refine ⟨⟨t, m.counters⟩, ?_⟩
  rw [Machine.raw, tape]

theorem Machine.raw_injective {u v : Machine} (h : u.raw = v.raw) : u = v := by
  rcases u with ⟨⟨⟨cells, size⟩, ⟨cursor, bound⟩⟩, counters⟩
  rcases v with ⟨⟨⟨cells', size'⟩, ⟨cursor', bound'⟩⟩, counters'⟩
  cases h
  rfl

/-- On a valid raw machine nothing goes wrong: after each of the operations whose sums fit, after each step of every
program, and within every instruction, which changes no cells but its targets if it has no body. -/
theorem machine_stays_valid (m : RawMachine) (valid : m.Valid) :
    (∀ operations, Operation.FitAlong m operations → ∀ before, before <+: operations →
      ∃ m', Operation.performAll m before = .ok m' ∧ m'.Valid ∧
        ∀ u : Machine, u.raw = m → (Operation.applyAll u before).raw = m') ∧
    (∀ p io n, ∃ s, RawExecution.after n p m io = .ok s ∧ s.machine.Valid ∧
      ∀ u : Machine, u.raw = m → (Execution.process.run n (Execution.start p u) io).state.raw = s) ∧
    ∀ i : Instruction, i.body? = none → ∀ io n s, RawExecution.after n [i] m io = .ok s →
      ∀ k : Nat, s.machine.tape.cells[k]? ≠ m.tape.cells[k]? → ∃ o ∈ i.targets, (k : Int) = m.tape.cursor + o := by
  obtain ⟨u, rfl⟩ := valid.exists_raw
  refine ⟨fun operations fit before part => ?_, fun p io n => ?_, fun i flat io n s stands k differs => ?_⟩
  · obtain ⟨later, rfl⟩ := part
    refine ⟨_, Operation.performAll_raw fit.first, Tape.valid_raw _, fun v same => ?_⟩
    rw [Machine.raw_injective same]
  · refine ⟨_, Execution.after_raw n p u io, Tape.valid_raw _, fun v same => ?_⟩
    rw [Machine.raw_injective same]
  · obtain rfl := Except.ok.inj ((Execution.after_raw n [i] u io).symm.trans stands)
    exact (Execution.untouched_run flat u io n).exists_target differs

/-- From one end of the tape to the other with the largest words, then a division whose operands lie off the tape. -/
private def edgeOperations : List Operation :=
  [.add (-2 ^ 63) 5, .moveBy (2 ^ 63 - 1), .setCurrent 9, .execute [.closed .divide] (.ofInput []) 2, .moveTo 7]

/-- On the fresh machine the sums fit, and the last cell can be divided by a cell off the tape. -/
theorem machine_stays_valid_edge :
    Machine.fresh.raw.Valid ∧ Operation.FitAlong Machine.fresh.raw edgeOperations ∧
      (∃ m, Operation.performAll Machine.fresh.raw edgeOperations = .ok m ∧ m.Valid) ∧
      (∃ s, RawExecution.after 2 [.closed .divide] Machine.fresh.raw (.ofInput []) = .ok s ∧ s.machine.Valid) ∧
      ∀ s, RawExecution.after 2 [.closed .divide] Machine.fresh.raw (.ofInput []) = .ok s → ∀ k : Nat,
        s.machine.tape.cells[k]? ≠ Machine.fresh.raw.tape.cells[k]? →
          ∃ o ∈ (Instruction.closed .divide).targets, (k : Int) = Machine.fresh.raw.tape.cursor + o := by
  have valid : Machine.fresh.raw.Valid := Tape.valid_raw _
  have fit : Operation.FitAlong Machine.fresh.raw edgeOperations := by
    have atStart : FitsWord ((0 : Nat) + -2 ^ 63) ∧ FitsWord ((0 : Nat) + (2 ^ 63 - 1)) := by decide
    have still : (Tape.blank.add (-2 ^ 63) 5).raw.cursor = 0 := congrArg Fin.val (Tape.cursor_add ..)
    refine Operation.fitAlong_cons atStart.1 (Operation.fitAlong_cons ?_ ?_)
    · show FitsWord ((Tape.blank.add (-2 ^ 63) 5).raw.cursor + (2 ^ 63 - 1))
      rw [still]
      exact atStart.2
    · exact Operation.fitAlong_cons trivial
        (Operation.fitAlong_cons trivial (Operation.fitAlong_cons trivial trivial))
  obtain ⟨operations, programs, targets⟩ := machine_stays_valid Machine.fresh.raw valid
  obtain ⟨m, done, valid', -⟩ := operations edgeOperations fit edgeOperations (List.prefix_refl _)
  obtain ⟨s, stands, valid'', -⟩ := programs [.closed .divide] (.ofInput []) 2
  exact ⟨valid, fit, ⟨m, done, valid'⟩, ⟨s, stands, valid''⟩, targets (.closed .divide) rfl (.ofInput []) 2⟩

end TapeLang
