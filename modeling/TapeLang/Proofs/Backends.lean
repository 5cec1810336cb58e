import TapeLang.Proofs.Runs
import TapeLang.Proofs.Templates

/-!
# A program and its file

The file of a program follows the execution of the program: when the execution stands before some instructions, the
file stands before the statements that they are turned into, possibly behind a few silent steps (`Follows`).  So the
two are bisimilar (`C.bisimulation`): one ends if the other does, after the same dealings with the streams and with
the same cells and cursor.
-/

namespace TapeLang.C

open Process (Matched)

variable {p : Program} {t : Tape} {n : Int} {c : Counters} {tasks : List Task} {todo rest : Program}

/-- The tasks that are left of a file when these instructions are left of its program.  Only blocks are to be left
whose variables are gone. -/
inductive Left : Program → List Task → Prop
  | done : Left [] [.statement .flush, .statement (.ret (.lit 0))]
  | instruction {i : Instruction} {rest : Program} {tasks : List Task} (later : Left rest tasks) :
      Left (i :: rest) ((ofInstruction i).map .statement ++ tasks)
  | leave {todo : Program} {tasks : List Task} (later : Left todo tasks) : Left todo (.leave 1 :: tasks)

theorem Left.program (body : Program) (later : Left todo tasks) :
    Left (body ++ todo) ((ofProgram body).map .statement ++ tasks) := by
  induction body with
  | nil =>
    rw [ofProgram]
    exact later
  | cons i body ih =>
    rw [ofProgram, List.map_append, List.append_assoc]
    exact .instruction ih

/-- A byte that was read is put into the cell under the cursor. -/
def takeIn : Stmt := .ifThen (.binary .ne (.var "c") (.var endName)) (.assign (.cell cursor) (.toByte (.var "c")))

/-- The file of a program stands where the execution stands, or silent steps lead it there. -/
inductive Follows (p : Program) : Execution.State → State → Prop
  | running {todo : Program} {tasks : List Task} {t : Tape} {c : Counters} {n : Int} (left : Left todo tasks) :
      Follows p ⟨.running todo, ⟨t, c⟩⟩ (.ready tasks [.counter n] t)
  | awaiting {todo : Program} {tasks : List Task} {t : Tape} {c : Counters} {n : Int} (left : Left todo tasks) :
      Follows p ⟨.awaiting todo, ⟨t, c⟩⟩
        (.ready (.statement (.getchar "c") :: .statement takeIn :: .leave 1 :: tasks) [.counter n] t)
  | finished {t : Tape} {c : Counters} {n : Int} : Follows p ⟨.finished, ⟨t, c⟩⟩ (.ready [] [.counter n] t)
  | behind {s : Execution.State} {a b : State} (first : Reaches p a b) (later : Follows p s b) : Follows p s a

/-- The file has done nothing undefined, and the array and the cursor are those of the tape. -/
structure SameTape (s : Execution.State) (a : State) : Prop where
  defined : a.stuck = false
  cells : a.scope.tape = s.machine.tape.cells.toArray
  cursor : a.scope.cursor = s.machine.tape.cursor

theorem sameTape_ready {phase : Execution.Phase} {locals : List Variable} :
    SameTape ⟨phase, ⟨t, c⟩⟩ (.ready tasks locals t) := ⟨rfl, rfl, rfl⟩

/-! ### Going on together -/

theorem matched_behind {s : Execution.State} {a b : State} (first : Reaches p a b)
    (h : Matched Execution.process p.toC.process (Follows p) SameTape s b) :
    Matched Execution.process p.toC.process (Follows p) SameTape s a := by
  obtain ⟨k, pos, quiet⟩ := first
  cases h with
  | quiet first second pos _ related => exact .quiet first (quiet.trans second) pos (by omega) related
  | ask first second same asks alike related => exact .ask first (quiet.trans second) same asks alike related

theorem matched_of_reaches {s s' : Execution.State} {a b : State} (first : Execution.process.Quiet 1 s s')
    (second : Reaches p a b) (related : Follows p s' b) :
    Matched Execution.process p.toC.process (Follows p) SameTape s a := by
  obtain ⟨k, pos, quiet⟩ := second
  exact .quiet first quiet Nat.one_pos pos related

theorem near_toInt32 (amount : Int32) : -intBound ≤ amount.toInt ∧ amount.toInt < intBound := by
  have := amount.le_toInt
  have := amount.toInt_lt
  simp only [intBound]
  omega

/-- What an instruction without loops and without input and output does to the tape, its statements do to
the array. -/
theorem reaches_plain {i : Instruction} {f : Tape → Tape} (effect : i.effect? = some f) :
    ∃ n', Reaches p (.ready ((ofInstruction i).map .statement ++ tasks) [.counter n] t)
      (.ready tasks [.counter n'] (f t)) := by
  cases i with
  | move amount =>
    obtain rfl : _ = f := Option.some.inj effect
    exact ⟨n, reaches_moveBy (near_toInt32 amount)⟩
  | add delta offset =>
    obtain rfl : _ = f := Option.some.inj effect
    have := delta.toUInt8.toNat_lt
    have := t.current.toNat_lt
    have value : Gives p [.counter n] t (.lit delta.toUInt8.toNat) ⟨.int, delta.toUInt8.toNat⟩ := by
      refine gives_lit ?_
      simp only [intBound]
      omega
    rw [ofInstruction]
    refine ⟨n, ?_⟩
    split
    · rename_i zero
      have sum : Gives p [.counter n] t (.binary .add current (.lit delta.toUInt8.toNat))
          ⟨.int, t.current.toNat + delta.toUInt8.toNat⟩ := by
        refine gives_add (gives_current rfl) value ?_
        simp only [intBound]
        omega
      have stored : Reaches p (.ready (.statement (.addAssign (.cell cursor) (.lit delta.toUInt8.toNat)) :: tasks)
          [.counter n] t) _ := reaches_addAssign sum (set?_current rfl _)
      rw [UInt8.ofInt_add, ofInt_toNat, ofInt_toNat, ← Tape.add_zero_eq_setCurrent] at stored
      rw [zero]
      exact stored
    · have added : Reaches p (.ready (.statement (cellAdd offset.toInt (.lit delta.toUInt8.toNat)) :: tasks)
          [.counter n] t) _ := reaches_cellAdd (near_toInt offset) value
      rw [ofInt_toNat] at added
      exact added
  | closed form =>
    obtain rfl : _ = f := Option.some.inj effect
    exact reaches_closed form n
  | _ => cases effect

theorem matched_plain {i : Instruction} {f : Tape → Tape} (effect : i.effect? = some f) (later : Left rest tasks) :
    Matched Execution.process p.toC.process (Follows p) SameTape ⟨.running (i :: rest), ⟨t, c⟩⟩
      (.ready ((ofInstruction i).map .statement ++ tasks) [.counter n] t) := by
  obtain ⟨c', first⟩ := Execution.quiet_plain effect rest ⟨t, c⟩
  obtain ⟨n', second⟩ : ∃ n', Reaches p (.ready ((ofInstruction i).map .statement ++ tasks) [.counter n] t)
    (.ready tasks [.counter n'] (f t)) := reaches_plain effect
  exact matched_of_reaches first second (.running later)

theorem reaches_whileDo_current {body : Stmt} :
    Reaches p (.ready (.statement (.whileDo current body) :: tasks) [.counter n] t)
      (.ready (if t.current = 0 then tasks else .statement body :: .statement (.whileDo current body) :: tasks)
        [.counter n] t) := by
  have h : Reaches p (.ready (.statement (.whileDo current body) :: tasks) [.counter n] t)
      (.ready (if (t.current.toNat : Int) = 0 then tasks
        else .statement body :: .statement (.whileDo current body) :: tasks) [.counter n] t) :=
    reaches_whileDo (gives_current rfl)
  simp only [toNat_eq_zero_iff] at h
  exact h

/-- Before a search for a zero cell. -/
theorem matched_seek {step : Int32} (later : Left rest tasks) :
    Matched Execution.process p.toC.process (Follows p) SameTape ⟨.running (.seek step :: rest), ⟨t, c⟩⟩
      (.ready ((ofInstruction (.seek step)).map .statement ++ tasks) [.counter n] t) := by
  have test : Reaches p (.ready ((ofInstruction (.seek step)).map .statement ++ tasks) [.counter n] t) _ :=
    reaches_whileDo_current
  by_cases zero : t.current = 0
  · rw [if_pos zero] at test
    obtain ⟨c', first⟩ := Execution.quiet_found (m := ⟨t, c⟩) step rest zero
    exact matched_of_reaches first test (.running later)
  · rw [if_neg zero] at test
    have first := Execution.quiet_seek (m := ⟨t, c⟩) step rest zero
    exact matched_of_reaches first (test.trans (reaches_moveBy (near_toInt32 step)))
      (.running (.instruction (i := .seek step) later))

/-- Before a loop. -/
theorem matched_loop {body : Program} (later : Left rest tasks) :
    Matched Execution.process p.toC.process (Follows p) SameTape ⟨.running (.loop body :: rest), ⟨t, c⟩⟩
      (.ready ((ofInstruction (.loop body)).map .statement ++ tasks) [.counter n] t) := by
  have test : Reaches p
      (.ready (.statement (.whileDo current (.block (ofProgram body))) :: tasks) [.counter n] t) _ :=
    reaches_whileDo_current
  have again : Left (.loop body :: rest) (.statement (.whileDo current (.block (ofProgram body))) :: tasks) := by
    have h := Left.instruction (i := .loop body) later
    rw [ofInstruction] at h
    exact h
  rw [ofInstruction]
  by_cases zero : t.current = 0
  · rw [if_pos zero] at test
    exact matched_of_reaches (Execution.quiet_leave body rest zero) test (.running later)
  · rw [if_neg zero] at test
    obtain ⟨c', first⟩ := Execution.quiet_pass (m := ⟨t, c⟩) body rest zero
    exact matched_of_reaches first (test.trans reaches_block) (.running (.program body (.leave again)))

/-- Before a request for a byte. -/
theorem matched_read (later : Left rest tasks) :
    Matched Execution.process p.toC.process (Follows p) SameTape ⟨.running (.read :: rest), ⟨t, c⟩⟩
      (.ready ((ofInstruction .read).map .statement ++ tasks) [.counter n] t) := by
  rw [ofInstruction]
  have entered : Reaches p (.ready (.statement readStmt :: tasks) [.counter n] t) _ := reaches_block
  refine matched_behind entered ?_
  exact .ask .refl .refl rfl (fun silent => by cases silent) sameTape_ready fun _ _ => .awaiting later

/-- Before an output. -/
theorem matched_print (later : Left rest tasks) :
    Matched Execution.process p.toC.process (Follows p) SameTape ⟨.running (.print :: rest), ⟨t, c⟩⟩
      (.ready ((ofInstruction .print).map .statement ++ tasks) [.counter n] t) := by
  have value : p.toC.eval? (.of [.counter n] t) current = some ⟨.int, t.current.toNat⟩ := gives_current rfl
  rw [ofInstruction]
  have asked : p.toC.process.request (.ready (.statement (.putchar current) :: tasks) [.counter n] t)
      = .write t.current := by
    simp only [File.process, State.request, State.ready, value, ofInt_store, ofInt_toNat]
    rfl
  refine .ask .refl .refl asked.symm (fun silent => by cases silent) sameTape_ready fun _ answer => ?_
  have next : p.toC.process.resume (.ready (.statement (.putchar current) :: tasks) [.counter n] t) answer
      = .ready tasks [.counter n] t := by
    simp only [File.process, State.resume, State.ready, State.carryOut?, value]
    rfl
  show Follows p _ (p.toC.process.resume (.ready (.statement (.putchar current) :: tasks) [.counter n] t) answer)
  rw [next]
  exact .running later

/-- Wherever the execution stands, its file goes on with it. -/
theorem matched_running (left : Left todo tasks) :
    Matched Execution.process p.toC.process (Follows p) SameTape ⟨.running todo, ⟨t, c⟩⟩
      (.ready tasks [.counter n] t) := by
  induction left with
  | done =>
    refine .ask .refl .refl rfl (fun silent => by cases silent) sameTape_ready fun _ answer => ?_
    have returns : Reaches p (.ready [.statement (.ret (.lit 0))] [.counter n] t) (.ready [] [.counter n] t) :=
      reaches_of_carryOut rfl rfl
    exact .behind returns .finished
  | leave later ih => exact matched_behind (reaches_leave [] [.counter n]) ih
  | @instruction i rest tasks later ih =>
    cases i with
    | move _ | add _ _ | closed _ => exact matched_plain rfl later
    | print => exact matched_print later
    | read => exact matched_read later
    | seek step => exact matched_seek later
    | loop body => exact matched_loop later
    | block body =>
      rw [ofInstruction]
      exact matched_of_reaches (.one rfl) reaches_block (.running (.program body (.leave later)))

/-- While a byte is awaited. -/
theorem matched_awaiting (left : Left todo tasks) :
    Matched Execution.process p.toC.process (Follows p) SameTape ⟨.awaiting todo, ⟨t, c⟩⟩
      (.ready (.statement (.getchar "c") :: .statement takeIn :: .leave 1 :: tasks) [.counter n] t) := by
  refine .ask .refl .refl rfl (fun silent => by cases silent) sameTape_ready fun _ answer => ?_
  cases answer with
  | none =>
    have test : Gives p [⟨"c", .int, -1⟩, .counter n] t (.binary .ne (.var "c") (.var endName)) ⟨.int, 0⟩ := rfl
    have skipped : Reaches p (.ready (.statement takeIn :: .leave 1 :: tasks) [⟨"c", .int, -1⟩, .counter n] t)
        (.ready (.leave 1 :: tasks) [⟨"c", .int, -1⟩, .counter n] t) := reaches_ifThen test
    exact .behind (skipped.trans (reaches_leave [⟨"c", .int, -1⟩] [.counter n])) (.running left)
  | some byte =>
    let locals : List Variable := [⟨"c", .int, byte.toNat⟩, .counter n]
    have test : Gives p locals t (.binary .ne (.var "c") (.var endName)) (truth ((byte.toNat : Int) != -1)) := rfl
    have taken : Reaches p (.ready (.statement takeIn :: .leave 1 :: tasks) locals t) _ := reaches_ifThen test
    have value : Gives p locals t (.toByte (.var "c")) ⟨.int, Ty.uint8.store byte.toNat⟩ := rfl
    have stored : Reaches p (.ready (.statement (.assign (.cell cursor) (.toByte (.var "c"))) :: .leave 1 :: tasks)
        locals t) _ := reaches_assign value (set?_current rfl _)
    have differs : ((byte.toNat : Int) != -1) = true := by
      rw [bne_iff_ne]
      omega
    rw [differs, if_neg (by decide)] at taken
    rw [ofInt_store, ofInt_toNat] at stored
    exact .behind (taken.trans (stored.trans (reaches_leave [⟨"c", .int, byte.toNat⟩] [.counter n]))) (.running left)

theorem bisimulation (p : Program) :
    Process.Bisimulation Execution.process p.toC.process (Follows p) SameTape := by
  intro s a follows
  induction follows with
  | running left => exact matched_running left
  | awaiting left => exact matched_awaiting left
  | finished => exact .ask .refl .refl rfl (fun silent => by cases silent) sameTape_ready fun halt => absurd rfl halt
  | behind first _ ih => exact matched_behind first ih

/-- At the start the file has its variable to declare. -/
theorem follows_start (p : Program) : Follows p (Execution.start p .fresh) (State.start p.toC) := by
  have opened : Reaches p (State.start p.toC)
      (.ready ((ofProgram p ++ [Stmt.flush, Stmt.ret (.lit 0)]).map .statement) [.counter 0] .blank) := by
    have declared : Reaches p (State.start p.toC)
        (.ready (.statement (.discard "counter") :: (ofProgram p ++ [Stmt.flush, Stmt.ret (.lit 0)]).map .statement)
          [.counter 0] .blank) := reaches_of_carryOut rfl rfl
    exact declared.trans (reaches_of_carryOut rfl rfl)
  rw [List.map_append] at opened
  have left := Left.program p .done
  rw [List.append_nil] at left
  exact .behind opened (.running left)

end TapeLang.C
