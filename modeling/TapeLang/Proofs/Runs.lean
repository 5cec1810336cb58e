import Mathlib.Logic.Relation
import TapeLang.Execution
import TapeLang.Proofs.Bisimulation

/-!
# Runs of programs

`Program.Runs p a b` says that `p`, started in the setting `a`, is carried out without a failure and leaves the
setting `b`.  A run that goes on forever has no such `b`.  Runs follow the tree of the program, so that facts about
them are proved along it: a program runs part by part (`runs_append_iff`), a loop runs pass by pass
(`runs_loop_iff`), and there is at most one end (`Runs.unique`).

The key fact is that runs are what executions do (`halts_iff_runs`).  Where only the tape matters, what an execution
leaves is said by `Program.LeavesTape`.
-/

namespace TapeLang

/-- What a program works on: the tape and the streams. -/
@[ext] structure Setting where
  tape : Tape
  streams : Streams

/-- The tape after a byte was asked for; at the end of the input it stays as it is. -/
def Tape.receive (t : Tape) : Option UInt8 → Tape
  | some byte => t.setCurrent byte
  | none => t

/-- What an instruction does to the tape, if it neither repeats anything nor does input or output. -/
def Instruction.effect? : Instruction → Option (Tape → Tape)
  | .move amount => some fun t => t.move amount.toInt
  | .add delta offset => some fun t => t.add offset.toInt delta.toUInt8
  | .closed form => some form.apply
  | _ => none

namespace Program

/-- The program, started in one setting, comes to its end in another. -/
inductive Runs : Program → Setting → Setting → Prop
  | done {a : Setting} : Runs [] a a
  | plain {i : Instruction} {rest : Program} {a b : Setting} {f : Tape → Tape} (effect : i.effect? = some f)
      (after : Runs rest ⟨f a.tape, a.streams⟩ b) : Runs (i :: rest) a b
  | print {rest : Program} {a b : Setting} {io : Streams} (written : a.streams.write a.tape.current = (.ok (), io))
      (after : Runs rest ⟨a.tape, io⟩ b) : Runs (.print :: rest) a b
  | read {rest : Program} {a b : Setting} {io io' : Streams} {answer : Option UInt8}
      (flushed : a.streams.flush = (.ok (), io)) (asked : io.read = (.ok answer, io'))
      (after : Runs rest ⟨a.tape.receive answer, io'⟩ b) : Runs (.read :: rest) a b
  | found {step : Int32} {rest : Program} {a b : Setting} (zero : a.tape.current = 0) (after : Runs rest a b) :
      Runs (.seek step :: rest) a b
  | seek {step : Int32} {rest : Program} {a b : Setting} (nonzero : a.tape.current ≠ 0)
      (after : Runs (.seek step :: rest) ⟨a.tape.move step.toInt, a.streams⟩ b) : Runs (.seek step :: rest) a b
  | leave {body rest : Program} {a b : Setting} (zero : a.tape.current = 0) (after : Runs rest a b) :
      Runs (.loop body :: rest) a b
  | pass {body rest : Program} {a b c : Setting} (nonzero : a.tape.current ≠ 0) (once : Runs body a b)
      (again : Runs (.loop body :: rest) b c) : Runs (.loop body :: rest) a c
  | block {body rest : Program} {a b c : Setting} (inside : Runs body a b) (after : Runs rest b c) :
      Runs (.block body :: rest) a c

/-! ### Runs and the parts of a program -/

@[simp] theorem runs_nil_iff {a b : Setting} : Runs [] a b ↔ a = b := by
  constructor
  · intro h
    cases h
    rfl
  · rintro rfl
    exact .done

theorem Runs.append {p q : Program} {a b c : Setting} (hp : Runs p a b) (hq : Runs q b c) : Runs (p ++ q) a c := by
  induction hp with
  | done => exact hq
  | plain effect _ ih => exact .plain effect (ih hq)
  | print written _ ih => exact .print written (ih hq)
  | read flushed asked _ ih => exact .read flushed asked (ih hq)
  | found zero _ ih => exact .found zero (ih hq)
  | seek nonzero _ ih => exact .seek nonzero (ih hq)
  | leave zero _ ih => exact .leave zero (ih hq)
  | pass nonzero once _ _ ih => exact .pass nonzero once (ih hq)
  | block inside _ _ ih => exact .block inside (ih hq)

/-- The first instruction of a program comes to its end before the others start. -/
theorem Runs.split {i : Instruction} {p : Program} {a c : Setting} (h : Runs (i :: p) a c) :
    ∃ b, Runs [i] a b ∧ Runs p b c := by
  generalize hr : i :: p = r at h
  induction h with
  | done => cases hr
  | plain effect after _ =>
    cases hr
    exact ⟨_, .plain effect .done, after⟩
  | print written after _ =>
    cases hr
    exact ⟨_, .print written .done, after⟩
  | read flushed asked after _ =>
    cases hr
    exact ⟨_, .read flushed asked .done, after⟩
  | found zero after _ =>
    cases hr
    exact ⟨_, .found zero .done, after⟩
  | seek nonzero _ ih =>
    cases hr
    obtain ⟨b, head, tail⟩ := ih rfl
    exact ⟨b, .seek nonzero head, tail⟩
  | leave zero after _ =>
    cases hr
    exact ⟨_, .leave zero .done, after⟩
  | pass nonzero once _ _ ih =>
    cases hr
    obtain ⟨b, head, tail⟩ := ih rfl
    exact ⟨b, .pass nonzero once head, tail⟩
  | block inside after _ _ =>
    cases hr
    exact ⟨_, .block inside .done, after⟩

theorem runs_cons_iff {i : Instruction} {p : Program} {a c : Setting} :
    Runs (i :: p) a c ↔ ∃ b, Runs [i] a b ∧ Runs p b c := by
  constructor
  · exact Runs.split
  · rintro ⟨b, head, tail⟩
    exact head.append tail

theorem runs_append_iff {p q : Program} {a c : Setting} : Runs (p ++ q) a c ↔ ∃ b, Runs p a b ∧ Runs q b c := by
  induction p generalizing a with
  | nil => simp
  | cons i p ih =>
    rw [List.cons_append, runs_cons_iff]
    constructor
    · rintro ⟨a', head, h⟩
      obtain ⟨b, hp, hq⟩ := ih.1 h
      exact ⟨b, head.append hp, hq⟩
    · rintro ⟨b, h, hq⟩
      obtain ⟨a', head, hp⟩ := h.split
      exact ⟨a', head, ih.2 ⟨b, hp, hq⟩⟩

theorem runs_plain_iff {i : Instruction} {f : Tape → Tape} (effect : i.effect? = some f) {p : Program}
    {a b : Setting} : Runs (i :: p) a b ↔ Runs p ⟨f a.tape, a.streams⟩ b := by
  constructor
  · intro h
    cases h with
    | plain effect' after =>
      obtain rfl : f = _ := Option.some.inj (effect.symm.trans effect')
      exact after
    | _ => cases effect
  · exact .plain effect

theorem runs_block_iff {body : Program} {a b : Setting} : Runs [.block body] a b ↔ Runs body a b := by
  constructor
  · intro h
    cases h with
    | plain effect _ => cases effect
    | block inside after =>
      cases after
      exact inside
  · intro h
    exact .block h .done

theorem Runs.unique {p : Program} {a b b' : Setting} (h : Runs p a b) (h' : Runs p a b') : b = b' := by
  induction h generalizing b' with
  | done => exact runs_nil_iff.1 h'
  | plain effect _ ih => exact ih ((runs_plain_iff effect).1 h')
  | print written _ ih =>
    cases h' with
    | plain effect _ => cases effect
    | print written' after =>
      cases written.symm.trans written'
      exact ih after
  | read flushed asked _ ih =>
    cases h' with
    | plain effect _ => cases effect
    | read flushed' asked' after =>
      cases flushed.symm.trans flushed'
      cases asked.symm.trans asked'
      exact ih after
  | found zero _ ih =>
    cases h' with
    | plain effect _ => cases effect
    | found _ after => exact ih after
    | seek nonzero _ => exact absurd zero nonzero
  | seek nonzero _ ih =>
    cases h' with
    | plain effect _ => cases effect
    | found zero _ => exact absurd zero nonzero
    | seek _ after => exact ih after
  | leave zero _ ih =>
    cases h' with
    | plain effect _ => cases effect
    | leave _ after => exact ih after
    | pass nonzero _ _ => exact absurd zero nonzero
  | pass nonzero _ _ ihBody ih =>
    cases h' with
    | plain effect _ => cases effect
    | leave zero _ => exact absurd zero nonzero
    | pass _ once again =>
      cases ihBody once
      exact ih again
  | block _ _ ihBody ih =>
    cases h' with
    | plain effect _ => cases effect
    | block inside after =>
      cases ihBody inside
      exact ih after

/-! ### Passes of a loop -/

/-- One pass of a loop around `body`. -/
def Pass (body : Program) (a b : Setting) : Prop := a.tape.current ≠ 0 ∧ Runs body a b

/-- Any number of passes. -/
abbrev Passes (body : Program) : Setting → Setting → Prop := Relation.ReflTransGen (Pass body)

/-- Exactly so many passes. -/
inductive Rounds (body : Program) : Nat → Setting → Setting → Prop
  | none {a : Setting} : Rounds body 0 a a
  | next {n : Nat} {a b c : Setting} (before : Rounds body n a b) (last : Pass body b c) : Rounds body (n + 1) a c

theorem Rounds.passes {body : Program} {n : Nat} {a b : Setting} (h : Rounds body n a b) : Passes body a b := by
  induction h with
  | none => exact .refl
  | next _ last ih => exact ih.tail last

/-- A loop runs pass by pass until it finds a zero. -/
theorem runs_loop_iff {body : Program} {a b : Setting} :
    Runs [.loop body] a b ↔ Passes body a b ∧ b.tape.current = 0 := by
  constructor
  · intro h
    generalize hp : [Instruction.loop body] = p at h
    induction h with
    | plain effect _ _ =>
      cases hp
      cases effect
    | leave zero after _ =>
      cases hp
      cases after
      exact ⟨.refl, zero⟩
    | pass nonzero once _ _ ih =>
      cases hp
      obtain ⟨passes, zero⟩ := ih rfl
      exact ⟨.head ⟨nonzero, once⟩ passes, zero⟩
    | _ => cases hp
  · rintro ⟨passes, zero⟩
    induction passes using Relation.ReflTransGen.head_induction_on with
    | refl => exact .leave zero .done
    | head first _ ih => exact .pass first.1 first.2 ih

theorem runs_loop_of_zero {body : Program} {a : Setting} (zero : a.tape.current = 0) : Runs [.loop body] a a :=
  .leave zero .done

/-! ### Programs that agree -/

/-- Started in this setting, two programs come to the same end, or both come to none. -/
def Agree (a : Setting) (p q : Program) : Prop := ∀ b, Runs p a b ↔ Runs q a b

theorem Agree.refl (a : Setting) (p : Program) : Agree a p p := fun _ => Iff.rfl

theorem Agree.symm {a : Setting} {p q : Program} (h : Agree a p q) : Agree a q p := fun b => (h b).symm

theorem Agree.trans {a : Setting} {p q r : Program} (h : Agree a p q) (h' : Agree a q r) : Agree a p r :=
  fun b => (h b).trans (h' b)

theorem agree_of_runs {a b : Setting} {p q : Program} (hp : Runs p a b) (hq : Runs q a b) : Agree a p q := by
  intro c
  constructor
  · intro h
    rw [← hp.unique h]
    exact hq
  · intro h
    rw [← hq.unique h]
    exact hp

/-- Programs agree if their first parts do and, wherever these end, their second parts. -/
theorem Agree.append {a : Setting} {p p' q q' : Program} (h : Agree a p p') (h' : ∀ b, Runs p a b → Agree b q q') :
    Agree a (p ++ q) (p' ++ q') := by
  intro c
  rw [runs_append_iff, runs_append_iff]
  constructor
  · rintro ⟨b, hp, hq⟩
    exact ⟨b, (h b).1 hp, (h' b hp c).1 hq⟩
  · rintro ⟨b, hp, hq⟩
    have hp' := (h b).2 hp
    exact ⟨b, hp', (h' b hp' c).2 hq⟩

theorem Agree.cons {a : Setting} {i j : Instruction} {p q : Program} (h : Agree a [i] [j])
    (h' : ∀ b, Runs [i] a b → Agree b p q) : Agree a (i :: p) (j :: q) :=
  Agree.append h h'

/-- Loops agree if their bodies do at the start of every pass. -/
theorem Agree.loop {a : Setting} {p q : Program} (h : ∀ b, Passes p a b → b.tape.current ≠ 0 → Agree b p q) :
    Agree a [.loop p] [.loop q] := by
  have there : ∀ b, Passes p a b → Passes q a b := by
    intro b passes
    induction passes with
    | refl => exact .refl
    | tail before last ih => exact ih.tail ⟨last.1, (h _ before last.1 _).1 last.2⟩
  have back : ∀ b, Passes q a b → Passes p a b := by
    intro b passes
    induction passes with
    | refl => exact .refl
    | tail _ last ih => exact ih.tail ⟨last.1, (h _ ih last.1 _).2 last.2⟩
  intro b
  rw [runs_loop_iff, runs_loop_iff]
  exact and_congr_left fun _ => ⟨there b, back b⟩

end Program

namespace Execution

open Program

/-! ### One step of an execution -/

variable {rest body : Program} {m : Machine} {io : Streams}

theorem step_plain {i : Instruction} {f : Tape → Tape} (effect : i.effect? = some f) :
    ∃ c, process.step ⟨.running (i :: rest), m⟩ io = .unfinished ⟨.running rest, ⟨f m.tape, c⟩⟩ io ∧
      c.passes = m.counters.passes := by
  cases i with
  | move _ | add _ _ | closed _ =>
    obtain rfl : _ = f := Option.some.inj effect
    exact ⟨_, rfl, rfl⟩
  | _ => cases effect

theorem step_print :
    process.step ⟨.running (.print :: rest), m⟩ io = match io.write m.tape.current with
      | (.ok _, io') =>
        .unfinished ⟨.running rest, ⟨m.tape, { m.counters with prints := m.counters.prints + 1 }⟩⟩ io'
      | (.error f, io') => .failed f ⟨.running (.print :: rest), m⟩ io' := rfl

theorem step_read :
    process.step ⟨.running (.read :: rest), m⟩ io = match io.flush with
      | (.ok _, io') => .unfinished ⟨.awaiting rest, m⟩ io'
      | (.error f, io') => .failed f ⟨.running (.read :: rest), m⟩ io' := rfl

theorem step_awaiting :
    process.step ⟨.awaiting rest, m⟩ io = match io.read with
      | (.ok answer, io') =>
        .unfinished ⟨.running rest, ⟨m.tape.receive answer, { m.counters with reads := m.counters.reads + 1 }⟩⟩ io'
      | (.error f, io') => .failed f ⟨.awaiting rest, m⟩ io' := rfl

theorem step_seek {amount : Int32} :
    ∃ c, process.step ⟨.running (.seek amount :: rest), m⟩ io =
      if m.tape.current = 0 then .unfinished ⟨.running rest, ⟨m.tape, c⟩⟩ io
      else .unfinished ⟨.running (.seek amount :: rest), ⟨m.tape.move amount.toInt, m.counters⟩⟩ io := by
  refine ⟨{ m.counters with seeks := m.counters.seeks + 1 }, ?_⟩
  simp only [Process.step, process, request, resume, carryOut]
  split <;> rfl

theorem step_loop :
    ∃ c, process.step ⟨.running (.loop body :: rest), m⟩ io =
      if m.tape.current = 0 then .unfinished ⟨.running rest, m⟩ io
      else .unfinished ⟨.running (body ++ .loop body :: rest), ⟨m.tape, c⟩⟩ io := by
  refine ⟨{ m.counters with passes := m.counters.passes + 1 }, ?_⟩
  simp only [Process.step, process, request, resume, carryOut]
  split <;> rfl

theorem step_block :
    process.step ⟨.running (.block body :: rest), m⟩ io = .unfinished ⟨.running (body ++ rest), m⟩ io := rfl

theorem step_end :
    process.step ⟨.running [], m⟩ io = match io.flush with
      | (.ok _, io') => .unfinished ⟨.finished, m⟩ io'
      | (.error f, io') => .failed f ⟨.running [], m⟩ io' := rfl

/-! ### Silent steps of an execution -/

theorem quiet_plain {i : Instruction} {f : Tape → Tape} (effect : i.effect? = some f) (rest : Program) (m : Machine) :
    ∃ c, process.Quiet 1 ⟨.running (i :: rest), m⟩ ⟨.running rest, ⟨f m.tape, c⟩⟩ := by
  cases i with
  | move _ | add _ _ | closed _ =>
    obtain rfl : _ = f := Option.some.inj effect
    exact ⟨_, .one rfl⟩
  | _ => cases effect

theorem quiet_found (step : Int32) (rest : Program) (zero : m.tape.current = 0) :
    ∃ c, process.Quiet 1 ⟨.running (.seek step :: rest), m⟩ ⟨.running rest, ⟨m.tape, c⟩⟩ := by
  have next : process.resume ⟨.running (.seek step :: rest), m⟩ none
      = ⟨.running rest, ⟨m.tape, { m.counters with seeks := m.counters.seeks + 1 }⟩⟩ := if_pos zero
  refine ⟨{ m.counters with seeks := m.counters.seeks + 1 }, ?_⟩
  rw [← next]
  exact .one rfl

theorem quiet_seek (step : Int32) (rest : Program) (nonzero : m.tape.current ≠ 0) :
    process.Quiet 1 ⟨.running (.seek step :: rest), m⟩
      ⟨.running (.seek step :: rest), ⟨m.tape.move step.toInt, m.counters⟩⟩ := by
  have next : process.resume ⟨.running (.seek step :: rest), m⟩ none
      = ⟨.running (.seek step :: rest), ⟨m.tape.move step.toInt, m.counters⟩⟩ := if_neg nonzero
  rw [← next]
  exact .one rfl

theorem quiet_leave (body rest : Program) (zero : m.tape.current = 0) :
    process.Quiet 1 ⟨.running (.loop body :: rest), m⟩ ⟨.running rest, m⟩ := by
  have next : process.resume ⟨.running (.loop body :: rest), m⟩ none = ⟨.running rest, m⟩ := if_pos zero
  rw [← next]
  exact .one rfl

theorem quiet_pass (body rest : Program) (nonzero : m.tape.current ≠ 0) :
    ∃ c, process.Quiet 1 ⟨.running (.loop body :: rest), m⟩ ⟨.running (body ++ .loop body :: rest), ⟨m.tape, c⟩⟩ := by
  have next : process.resume ⟨.running (.loop body :: rest), m⟩ none
      = ⟨.running (body ++ .loop body :: rest), ⟨m.tape, { m.counters with passes := m.counters.passes + 1 }⟩⟩ :=
    if_neg nonzero
  refine ⟨{ m.counters with passes := m.counters.passes + 1 }, ?_⟩
  rw [← next]
  exact .one rfl

/-! ### Runs are what executions do -/

/-- An execution that starts with `p` carries out the run of `p` and then stands before the rest. -/
theorem leads_of_runs {p : Program} {a b : Setting} (h : p.Runs a b) (rest : Program) (c : Counters) :
    ∃ c', process.Leads ⟨.running (p ++ rest), ⟨a.tape, c⟩⟩ a.streams ⟨.running rest, ⟨b.tape, c'⟩⟩ b.streams := by
  induction h generalizing rest c with
  | done => exact ⟨c, .refl⟩
  | plain effect _ ih =>
    obtain ⟨c₁, first, -⟩ := step_plain effect
    obtain ⟨c₂, others⟩ := ih rest c₁
    exact ⟨c₂, .step first others⟩
  | print written _ ih =>
    obtain ⟨c₁, others⟩ := ih rest { c with prints := c.prints + 1 }
    refine ⟨c₁, .step ?_ others⟩
    rw [List.cons_append, step_print, written]
  | @read later a _ io _ _ flushed asked _ ih =>
    obtain ⟨c₁, others⟩ := ih rest { c with reads := c.reads + 1 }
    have first : process.step ⟨.running (.read :: later ++ rest), ⟨a.tape, c⟩⟩ a.streams
        = .unfinished ⟨.awaiting (later ++ rest), ⟨a.tape, c⟩⟩ io := by
      rw [List.cons_append, step_read, flushed]
    refine ⟨c₁, .step first (.step ?_ others)⟩
    rw [step_awaiting, asked]
  | found zero _ ih =>
    obtain ⟨c₁, first⟩ := step_seek
    obtain ⟨c₂, others⟩ := ih rest c₁
    refine ⟨c₂, .step ?_ others⟩
    rw [List.cons_append, first, if_pos zero]
  | seek nonzero _ ih =>
    obtain ⟨c₁, first⟩ := step_seek
    obtain ⟨c₂, others⟩ := ih rest c
    refine ⟨c₂, .step ?_ others⟩
    rw [List.cons_append, first, if_neg nonzero]
  | leave zero _ ih =>
    obtain ⟨c₁, first⟩ := step_loop
    obtain ⟨c₂, others⟩ := ih rest c
    refine ⟨c₂, .step ?_ others⟩
    rw [List.cons_append, first, if_pos zero]
  | pass nonzero _ _ ihBody ih =>
    obtain ⟨c₁, first⟩ := step_loop
    obtain ⟨c₂, inside⟩ := ihBody (.loop _ :: _ ++ rest) c₁
    obtain ⟨c₃, others⟩ := ih rest c₂
    refine ⟨c₃, .step ?_ (inside.trans others)⟩
    rw [List.cons_append, first, if_neg nonzero]
  | block _ _ ihBody ih =>
    obtain ⟨c₁, inside⟩ := ihBody (_ ++ rest) c
    obtain ⟨c₂, others⟩ := ih rest c₁
    exact ⟨c₂, .step step_block (inside.trans others)⟩

private theorem halted_print {n : Nat} {rest : Program} {m : Machine} {io io' : Streams} {s : State}
    (h : process.run (n + 1) ⟨.running (.print :: rest), m⟩ io = .halted s io') :
    ∃ io₁, io.write m.tape.current = (.ok (), io₁) ∧
      process.run n ⟨.running rest, ⟨m.tape, { m.counters with prints := m.counters.prints + 1 }⟩⟩ io₁
        = .halted s io' := by
  obtain ⟨answer, io₁, _, ⟨⟩, served, ends⟩ := Process.halted_of_answer (by nofun) h
  exact ⟨io₁, Request.write_of_serve served, ends⟩

private theorem halted_read {n : Nat} {rest : Program} {m : Machine} {io io' : Streams} {s : State}
    (h : process.run (n + 1) ⟨.running (.read :: rest), m⟩ io = .halted s io') :
    ∃ io₁ io₂ answer k, k < n ∧ io.flush = (.ok (), io₁) ∧ io₁.read = (.ok answer, io₂) ∧
      process.run k ⟨.running rest, ⟨m.tape.receive answer, { m.counters with reads := m.counters.reads + 1 }⟩⟩ io₂
        = .halted s io' := by
  obtain ⟨_, io₁, _, ⟨⟩, flushed, h⟩ := Process.halted_of_answer (by nofun) h
  obtain ⟨answer, io₂, k, rfl, asked, ends⟩ := Process.halted_of_answer (by nofun) h
  exact ⟨io₁, io₂, answer, k, Nat.lt_succ_self k, Request.flush_of_serve flushed, asked, ends⟩

private theorem halted_end {n : Nat} {m : Machine} {io io' : Streams} {s : State}
    (h : process.run n ⟨.running [], m⟩ io = .halted s io') : io.flush = (.ok (), io') ∧ s = ⟨.finished, m⟩ := by
  obtain ⟨_, io₁, k, rfl, flushed, h⟩ := Process.halted_of_answer (by nofun) h
  cases k with
  | zero => cases h
  | succ k =>
    cases h
    exact ⟨Request.flush_of_serve flushed, rfl⟩

/-- An execution that halts has run its first part to the end. -/
theorem runs_of_halted {n : Nat} {p rest : Program} {m : Machine} {io io' : Streams} {s : State}
    (h : process.run n ⟨.running (p ++ rest), m⟩ io = .halted s io') :
    ∃ b c k, k ≤ n ∧ p.Runs ⟨m.tape, io⟩ b ∧
      process.run k ⟨.running rest, ⟨b.tape, c⟩⟩ b.streams = .halted s io' := by
  -- every step leaves fewer of the `n` steps, so the induction is on their number, for all programs at once
  induction n using Nat.strongRecOn generalizing p rest m io with
  | ind n ih =>
    cases p with
    | nil => exact ⟨⟨m.tape, io⟩, m.counters, n, Nat.le_refl n, .done, h⟩
    | cons i p =>
      cases n with
      | zero => cases h
      | succ n =>
        rw [List.cons_append] at h
        cases i with
        | move amount | add delta offset | closed form =>
          rw [Process.run_succ] at h
          obtain ⟨b, c, k, hk, after, ends⟩ := ih n (Nat.lt_succ_self n) h
          exact ⟨b, c, k, by omega, .plain rfl after, ends⟩
        | print =>
          obtain ⟨io₁, written, h⟩ := halted_print h
          obtain ⟨b, c, k, hk, after, ends⟩ := ih n (Nat.lt_succ_self n) h
          exact ⟨b, c, k, by omega, .print written after, ends⟩
        | read =>
          obtain ⟨io₁, io₂, answer, j, hj, flushed, asked, h⟩ := halted_read h
          obtain ⟨b, c, k, hk, after, ends⟩ := ih j (by omega) h
          exact ⟨b, c, k, by omega, .read flushed asked after, ends⟩
        | seek amount =>
          obtain ⟨c₁, first⟩ := step_seek
          rw [Process.run_succ, first] at h
          by_cases zero : m.tape.current = 0
          · rw [if_pos zero] at h
            obtain ⟨b, c, k, hk, after, ends⟩ := ih n (Nat.lt_succ_self n) h
            exact ⟨b, c, k, by omega, .found zero after, ends⟩
          · rw [if_neg zero] at h
            obtain ⟨b, c, k, hk, after, ends⟩ := ih n (Nat.lt_succ_self n) (p := .seek amount :: p) h
            exact ⟨b, c, k, by omega, .seek zero after, ends⟩
        | loop body =>
          obtain ⟨c₁, first⟩ := step_loop
          rw [Process.run_succ, first] at h
          by_cases zero : m.tape.current = 0
          · rw [if_pos zero] at h
            obtain ⟨b, c, k, hk, after, ends⟩ := ih n (Nat.lt_succ_self n) h
            exact ⟨b, c, k, by omega, .leave zero after, ends⟩
          · rw [if_neg zero] at h
            obtain ⟨b, c, j, hj, once, h⟩ := ih n (Nat.lt_succ_self n) h
            obtain ⟨b', c', k, hk, again, ends⟩ := ih j (by omega) (p := .loop body :: p) h
            exact ⟨b', c', k, by omega, .pass zero once again, ends⟩
        | block body =>
          rw [Process.run_succ, step_block] at h
          obtain ⟨b, c, j, hj, inside, h⟩ := ih n (Nat.lt_succ_self n) h
          obtain ⟨b', c', k, hk, after, ends⟩ := ih j (by omega) h
          exact ⟨b', c', k, by omega, .block inside after, ends⟩

/-- An execution halts exactly if its program comes to an end and the last flush succeeds. -/
theorem halts_iff_runs {p : Program} {m : Machine} {io io' : Streams} {t : Tape} :
    (∃ c, process.Ends (start p m) io (.halted ⟨.finished, ⟨t, c⟩⟩ io'))
      ↔ ∃ io₁, p.Runs ⟨m.tape, io⟩ ⟨t, io₁⟩ ∧ io₁.flush = (.ok (), io') := by
  constructor
  · rintro ⟨c, -, n, h⟩
    have h : process.run n ⟨.running (p ++ []), m⟩ io = .halted ⟨.finished, ⟨t, c⟩⟩ io' := by
      rw [List.append_nil]
      exact h
    obtain ⟨b, c₁, k, -, runs, ends⟩ := runs_of_halted h
    obtain ⟨flushed, same⟩ := halted_end ends
    obtain rfl : t = b.tape := congrArg (·.machine.tape) same
    exact ⟨b.streams, runs, flushed⟩
  · rintro ⟨io₁, runs, flushed⟩
    obtain ⟨c, leads⟩ := leads_of_runs runs [] m.counters
    rw [List.append_nil] at leads
    refine ⟨c, leads.ends ⟨trivial, 2, ?_⟩⟩
    rw [Process.run_succ, step_end, flushed]
    rfl

end Execution

namespace Program

open Execution

/-- The execution of the program on the machine, with this input, ends, and this tape is left. -/
def LeavesTape (p : Program) (m : Machine) (input : List UInt8) (t : Tape) : Prop :=
  ∃ counters io, process.Ends (start p m) (.ofInput input) (.halted ⟨.finished, ⟨t, counters⟩⟩ io)

variable {p : Program} {m : Machine} {input : List UInt8} {t t' : Tape}

theorem LeavesTape.unique (h : p.LeavesTape m input t) (h' : p.LeavesTape m input t') : t = t' := by
  obtain ⟨c, io, ends⟩ := h
  obtain ⟨c', io', ends'⟩ := h'
  cases ends.unique ends'
  rfl

theorem leavesTape_of_runs (runs : p.Runs ⟨m.tape, .ofInput input⟩ ⟨t, .ofInput input⟩) : p.LeavesTape m input t := by
  obtain ⟨c, ends⟩ := halts_iff_runs.2 ⟨_, runs, (Streams.ofInput_sound input).flush_eq⟩
  exact ⟨c, _, ends⟩

end Program

end TapeLang
