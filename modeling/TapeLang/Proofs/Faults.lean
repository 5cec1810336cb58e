import TapeLang.Proofs.Accounts
import TapeLang.Proofs.Runs

/-!
# Executions on streams that fail

A run on streams with faults goes along with the run on the same streams without faults, and a fault that strikes
leaves what that run had before it (`run_faults`).  A read that reports the end of the input where the input is at its
end meets no fault, and a read after it can still fail.

For an execution the moment before a fault is that before the print or the read that failed, or the end of the program
if the last flush failed; so the output is the beginning of what is written without faults, and what failed is not
counted (`failure_cuts_run_short`).
-/

namespace TapeLang

namespace Streams

/-- The same streams with no fault scheduled. -/
def faultless (io : Streams) : Streams := { io with readFaults := [], writeFaults := [], flushFaults := [] }

/-- Both have handed out and taken in the same bytes. -/
structure SameBytes (io io' : Streams) : Prop where
  written : io.written = io'.written
  input : io.input = io'.input
  delivered : io.delivered = io'.delivered

/-- On the way from `io` to `io'` no fault was met but reads and writes that were interrupted, and ends of
the input. -/
structure OnlyInterrupted (io io' : Streams) : Prop where
  reads : ∃ met, io.readFaults = met ++ io'.readFaults ∧ ∀ f ∈ met, f.fault = .interrupted ∨ f.fault = .endOfFile
  writes : ∃ met, io.writeFaults = met ++ io'.writeFaults ∧ ∀ f ∈ met, f.fault = .interrupted
  flushes : io.flushFaults = io'.flushFaults

/-- No read reports the end of the input before all of it was handed out. -/
def NoFalseEnd (io : Streams) : Prop :=
  ∀ f ∈ io.readFaults, f.fault = .endOfFile → io.delivered + io.input.length ≤ f.due

end Streams

namespace Request

/-- The faults that a request can meet. -/
def schedule : Request → Streams → List ScheduledFault
  | .write _, io => io.writeFaults
  | .flush, io => io.flushFaults
  | .read, io => io.readFaults
  | .silent, _ | .halt, _ => []

/-- On the way from `io` to `io'` the last fault that such a request met is `f`, and trying again does not help. -/
structure Struck (r : Request) (f : Fault) (io io' : Streams) : Prop where
  met : ∃ before due, r.schedule io = before ++ ⟨due, f⟩ :: r.schedule io'
  lasting : r ≠ .flush → f ≠ .interrupted
  /-- To a read, the end of the input is an answer. -/
  noEnd : r = .read → f ≠ .endOfFile

end Request

/-- The outcome without the faults that are still scheduled. -/
def Outcome.faultless {σ : Type} : Outcome σ → Outcome σ
  | halted s io => .halted s io.faultless
  | failed f s io => .failed f s io.faultless
  | unfinished s io => .unfinished s io.faultless

/-! ### Schedules -/

/-- What is met by someone who tries again: interruptions, and at the end of them a lasting fault or none. -/
theorem nextFaultRetrying_cases (progress : Nat) (faults : List ScheduledFault) :
    ∃ met, (∀ f ∈ met, f.fault = .interrupted) ∧
      ((∃ later, nextFaultRetrying progress faults = (none, later) ∧ faults = met ++ later) ∨
        ∃ due f later, nextFaultRetrying progress faults = (some f, later) ∧ faults = met ++ ⟨due, f⟩ :: later ∧
          due ≤ progress ∧ f ≠ .interrupted) := by
  induction faults with
  | nil => exact ⟨[], by simp, .inl ⟨[], rfl, rfl⟩⟩
  | cons first rest ih =>
    rcases first with ⟨due, fault⟩
    unfold nextFaultRetrying
    split
    · next ready =>
      split
      · next again =>
        subst again
        obtain ⟨met, interrupted, cases⟩ := ih
        refine ⟨⟨due, .interrupted⟩ :: met, ?_, ?_⟩
        · intro f hf
          rcases List.mem_cons.1 hf with rfl | hf
          · rfl
          · exact interrupted f hf
        · rcases cases with ⟨later, next, split⟩ | ⟨due', f, later, next, split, lasting⟩
          · exact .inl ⟨later, next, by rw [split]; rfl⟩
          · exact .inr ⟨due', f, later, next, by rw [split]; rfl, lasting⟩
      · next lasting => exact ⟨[], by simp, .inr ⟨due, fault, rest, rfl, rfl, ready, lasting⟩⟩
    · exact ⟨[], by simp, .inl ⟨⟨due, fault⟩ :: rest, rfl, rfl⟩⟩

namespace Streams

variable {io io₁ io₂ : Streams}

theorem sameBytes_of_flush (h : io.flush = (.ok (), io₁)) : io₁.SameBytes io := by
  simp only [flush] at h
  split at h <;> cases h
  exact ⟨rfl, rfl, rfl⟩

theorem OnlyInterrupted.refl (io : Streams) : io.OnlyInterrupted io :=
  ⟨⟨[], rfl, by simp⟩, ⟨[], rfl, by simp⟩, rfl⟩

theorem OnlyInterrupted.trans (h : io.OnlyInterrupted io₁) (h' : io₁.OnlyInterrupted io₂) :
    io.OnlyInterrupted io₂ := by
  obtain ⟨⟨reads, er, ir⟩, ⟨writes, ew, iw⟩, flushes⟩ := h
  obtain ⟨⟨reads', er', ir'⟩, ⟨writes', ew', iw'⟩, flushes'⟩ := h'
  refine ⟨⟨reads ++ reads', by rw [er, er', List.append_assoc], ?_⟩,
    ⟨writes ++ writes', by rw [ew, ew', List.append_assoc], ?_⟩, flushes.trans flushes'⟩
  · exact List.forall_mem_append.2 ⟨ir, ir'⟩
  · exact List.forall_mem_append.2 ⟨iw, iw'⟩

/-- Between what was handed out and what is left, a served request keeps the input as long as it was. -/
theorem NoFalseEnd.later {r : Request} {answer : Option UInt8} (h : io.NoFalseEnd)
    (served : r.serve io = (.ok answer, io₁)) (met : io.OnlyInterrupted io₁) : io₁.NoFalseEnd := by
  obtain ⟨input, delivered⟩ := Request.input_of_serve served
  obtain ⟨reads, e, -⟩ := met.reads
  intro f hf atEnd
  have due := h f (by rw [e]; exact List.mem_append_right _ hf) atEnd
  rw [input, List.length_append] at due
  omega

/-- What strikes later strikes from the beginning on. -/
theorem OnlyInterrupted.struck {r : Request} {f : Fault} (h : io.OnlyInterrupted io₁) (struck : r.Struck f io₁ io₂) :
    r.Struck f io io₂ := by
  obtain ⟨⟨before, due, e⟩, lasting, noEnd⟩ := struck
  refine ⟨?_, lasting, noEnd⟩
  cases r with
  | write byte =>
    obtain ⟨met, em, -⟩ := h.writes
    exact ⟨met ++ before, due, by rw [Request.schedule, em, List.append_assoc]; exact congrArg _ e⟩
  | flush => exact ⟨before, due, h.flushes.trans e⟩
  | read =>
    obtain ⟨met, em, -⟩ := h.reads
    exact ⟨met ++ before, due, by rw [Request.schedule, em, List.append_assoc]; exact congrArg _ e⟩
  | silent | halt => exact ⟨before, due, e⟩

/-- A fault that strikes is more than an interrupted read or write or the end of the input. -/
theorem OnlyInterrupted.not_struck {r : Request} {f : Fault} (h : io.OnlyInterrupted io₁) : ¬ r.Struck f io io₁ := by
  rintro ⟨⟨before, due, e⟩, lasting, noEnd⟩
  -- the fault belongs to what was met
  have mem {met later : List ScheduledFault} (h : met ++ later = before ++ ⟨due, f⟩ :: later) : ⟨due, f⟩ ∈ met := by
    have same : met = before ++ [⟨due, f⟩] := by
      refine List.append_cancel_right (?_ : met ++ later = before ++ [⟨due, f⟩] ++ later)
      rw [h, List.append_assoc]
      rfl
    simp [same]
  cases r with
  | write byte =>
    obtain ⟨met, em, interrupted⟩ := h.writes
    exact lasting nofun (interrupted _ (mem (em.symm.trans e)))
  | flush =>
    have := congrArg List.length (h.flushes.symm.trans e)
    simp [Request.schedule] at this
    omega
  | read =>
    obtain ⟨met, em, overcome⟩ := h.reads
    rcases overcome _ (mem (em.symm.trans e)) with interrupted | atEnd
    · exact lasting nofun interrupted
    · exact noEnd rfl atEnd
  | silent | halt => simp [Request.schedule] at e

end Streams

/-! ### One request -/

namespace Request

/-- A request is answered as without faults, or a fault strikes and no byte passes. -/
theorem serve_faults (r : Request) {io : Streams} (honest : io.NoFalseEnd) :
    (∃ answer io', r.serve io = (.ok answer, io') ∧ r.serve io.faultless = (.ok answer, io'.faultless) ∧
        io.OnlyInterrupted io') ∨
      ∃ f io', r.serve io = (.error f, io') ∧ r.Struck f io io' ∧ io'.SameBytes io := by
  cases r with
  | silent | halt => exact .inl ⟨none, io, rfl, rfl, .refl io⟩
  | write byte =>
    obtain ⟨met, interrupted, cases⟩ := nextFaultRetrying_cases io.written.size io.writeFaults
    rcases cases with ⟨later, next, split⟩ | ⟨due, f, later, next, split, -, lasting⟩
    · refine .inl ⟨none, { io with writeFaults := later, written := io.written.push byte }, ?_, rfl, ?_⟩
      · simp only [serve_write, Streams.write, next, Except.map]
      · exact ⟨⟨[], rfl, by simp⟩, ⟨met, split, interrupted⟩, rfl⟩
    · refine .inr ⟨f, { io with writeFaults := later }, ?_,
        ⟨⟨met, due, split⟩, fun _ => lasting, fun h => by cases h⟩, rfl, rfl, rfl⟩
      simp only [serve_write, Streams.write, next, Except.map]
  | flush =>
    rcases io with ⟨input, delivered, written, flushes, readFaults, writeFaults, flushFaults⟩
    cases flushFaults with
    | nil => exact .inl ⟨none, _, rfl, rfl, ⟨[], rfl, by simp⟩, ⟨[], rfl, by simp⟩, rfl⟩
    | cons first rest =>
      rcases first with ⟨due, f⟩
      by_cases ready : due ≤ flushes
      · refine .inr ⟨f, ⟨input, delivered, written, flushes + 1, readFaults, writeFaults, rest⟩, ?_,
          ⟨⟨[], due, rfl⟩, fun h => absurd rfl h, fun h => by cases h⟩, rfl, rfl, rfl⟩
        simp only [serve_flush, Streams.flush, nextFault, if_pos ready, Except.map]
      · refine .inl
          ⟨none, ⟨input, delivered, written, flushes + 1, readFaults, writeFaults, ⟨due, f⟩ :: rest⟩, ?_, rfl,
          ⟨[], rfl, by simp⟩, ⟨[], rfl, by simp⟩, rfl⟩
        simp only [serve_flush, Streams.flush, nextFault, if_neg ready, Except.map]
  | read =>
    obtain ⟨met, interrupted, cases⟩ := nextFaultRetrying_cases io.delivered io.readFaults
    have overcome : ∀ f ∈ met, f.fault = .interrupted ∨ f.fault = .endOfFile := fun f hf => .inl (interrupted f hf)
    rcases cases with ⟨later, next, split⟩ | ⟨due, f, later, next, split, ready, lasting⟩
    · refine .inl ?_
      rcases io with ⟨input, delivered, written, flushes, readFaults, writeFaults, flushFaults⟩
      cases input with
      | nil =>
        refine ⟨none, ⟨[], delivered, written, flushes, later, writeFaults, flushFaults⟩, ?_, rfl,
          ⟨met, split, overcome⟩, ⟨[], rfl, by simp⟩, rfl⟩
        simp only [serve_read, Streams.read, next]
      | cons byte rest =>
        refine ⟨some byte, ⟨rest, delivered + 1, written, flushes, later, writeFaults, flushFaults⟩, ?_, rfl,
          ⟨met, split, overcome⟩, ⟨[], rfl, by simp⟩, rfl⟩
        simp only [serve_read, Streams.read, next]
    · by_cases atEnd : f = .endOfFile
      · -- what reads as the end of the input is its end
        subst atEnd
        have bound := honest ⟨due, .endOfFile⟩ (by simp [split]) rfl
        have empty : io.input = [] := List.eq_nil_of_length_eq_zero (by simp only at bound; omega)
        refine .inl ⟨none, { io with readFaults := later }, ?_, ?_, ⟨met ++ [⟨due, .endOfFile⟩], ?_, ?_⟩,
          ⟨[], rfl, by simp⟩, rfl⟩
        · simp only [serve_read, Streams.read, next]
        · simp only [serve_read, Streams.read, Streams.faultless, nextFaultRetrying, empty]
        · rw [split, List.append_assoc]
          rfl
        · exact List.forall_mem_append.2 ⟨overcome, by simp⟩
      · refine .inr ⟨f, { io with readFaults := later }, ?_, ⟨⟨met, due, split⟩, fun _ => lasting, fun _ => atEnd⟩,
          rfl, rfl, rfl⟩
        simp only [serve_read, Streams.read, next]

end Request

/-! ### Steps and runs -/

namespace Process

variable {σ : Type} {P : Process σ} {s : σ} {io : Streams}

/-- A run that goes on has a last step. -/
theorem last_step {n : Nat} {s' : σ} {io' : Streams} (h : P.run (n + 1) s io = .unfinished s' io') :
    ∃ s₁ io₁, P.run n s io = .unfinished s₁ io₁ ∧ P.step s₁ io₁ = .unfinished s' io' := by
  rw [run_add] at h
  cases before : P.run n s io with
  | unfinished s₁ io₁ =>
    refine ⟨s₁, io₁, rfl, ?_⟩
    rw [before, Outcome.andThen, run_succ] at h
    cases last : P.step s₁ io₁ with
    | unfinished s₂ io₂ =>
      rw [last] at h
      exact h
    | halted s₂ io₂ | failed f s₂ io₂ =>
      rw [last] at h
      cases h
  | halted s₁ io₁ | failed f s₁ io₁ =>
    rw [before] at h
    cases h

/-- A step goes along with the step on streams without faults, or a fault strikes. -/
theorem step_faults (P : Process σ) (s : σ) (honest : io.NoFalseEnd) :
    (P.step s io.faultless = (P.step s io).faultless ∧ io.OnlyInterrupted (P.step s io).streams ∧
        (P.step s io).streams.NoFalseEnd) ∨
      ∃ f io', P.step s io = .failed f s io' ∧ (P.request s).Struck f io io' ∧ io'.SameBytes io := by
  by_cases halt : P.request s = .halt
  · rw [step_of_halt halt, step_of_halt halt]
    exact .inl ⟨rfl, .refl io, honest⟩
  · rw [step_of_serve halt, step_of_serve halt]
    rcases (P.request s).serve_faults honest with ⟨answer, io', served, served', met⟩ | ⟨f, io', served, struck, same⟩
    · rw [served, served']
      exact .inl ⟨rfl, met, honest.later served met⟩
    · rw [served]
      exact .inr ⟨f, io', rfl, struck, same⟩

/-- A run goes along with the run on streams without faults, or a fault strikes where that run comes to. -/
theorem run_faults (honest : io.NoFalseEnd) (n : Nat) :
    (P.run n s io.faultless = (P.run n s io).faultless ∧ io.OnlyInterrupted (P.run n s io).streams) ∨
      ∃ f s' io' k io'', P.run n s io = .failed f s' io' ∧ (P.request s').Struck f io io' ∧ k < n ∧
        P.run k s io.faultless = .unfinished s' io'' ∧ io'.SameBytes io'' := by
  induction n generalizing s io with
  | zero => exact .inl ⟨rfl, .refl io⟩
  | succ n ih =>
    rcases P.step_faults s honest with ⟨along, met, later⟩ | ⟨f, io', failed, struck, same⟩
    · rw [run_succ, run_succ, along]
      cases first : P.step s io with
      | halted s₁ io₁ =>
        rw [first] at met
        exact .inl ⟨rfl, met⟩
      | failed f s₁ io₁ =>
        rw [first] at met
        exact .inl ⟨rfl, met⟩
      | unfinished s₁ io₁ =>
        rw [first] at met along later
        rcases @ih s₁ io₁ later with
          ⟨along', met'⟩ | ⟨f, s', io', k, io'', failed, struck, before, comes, same⟩
        · exact .inl ⟨along', met.trans met'⟩
        · refine .inr ⟨f, s', io', k + 1, io'', failed, met.struck struck, Nat.succ_lt_succ before, ?_, same⟩
          rw [run_succ, along]
          exact comes
    · refine .inr ⟨f, s, io', 0, io.faultless, ?_, struck, Nat.succ_pos n, rfl, same.written, same.input,
        same.delivered⟩
      rw [run_succ, failed]
      rfl

/-- What has been written stays. -/
theorem step_written (P : Process σ) (s : σ) (io : Streams) :
    io.written.toList <+: (P.step s io).streams.written.toList := by
  by_cases halt : P.request s = .halt
  · rw [step_of_halt halt]
    exact List.prefix_rfl
  · have served : io.written.toList <+: ((P.request s).serve io).2.written.toList := by
      cases P.request s with
      | write byte =>
        simp only [Request.serve_write, Streams.write]
        split
        · exact List.prefix_rfl
        · simp
      | flush =>
        simp only [Request.serve_flush, Streams.flush]
        split <;> exact List.prefix_rfl
      | read =>
        simp only [Request.serve_read, Streams.read]
        split
        · exact List.prefix_rfl
        · exact List.prefix_rfl
        · split <;> exact List.prefix_rfl
      | silent | halt => exact List.prefix_rfl
    rw [step_of_serve halt]
    rcases h : (P.request s).serve io with ⟨_ | _, io'⟩ <;> rw [h] at served <;> exact served

theorem run_written (P : Process σ) (n : Nat) (s : σ) (io : Streams) :
    io.written.toList <+: (P.run n s io).streams.written.toList := by
  induction n generalizing s io with
  | zero => exact List.prefix_rfl
  | succ n ih =>
    have first := P.step_written s io
    rw [run_succ]
    cases h : P.step s io with
    | unfinished s' io' =>
      rw [h] at first
      exact first.trans (ih s' io')
    | halted s' io' | failed f s' io' =>
      rw [h] at first
      exact first

theorem written_of_run_le {k n : Nat} {s' : σ} {io' : Streams} (h : P.run k s io = .unfinished s' io') (le : k ≤ n) :
    io'.written.toList <+: (P.run n s io).streams.written.toList := by
  obtain ⟨j, rfl⟩ := Nat.exists_eq_add_of_le le
  rw [run_add, h]
  exact P.run_written j s' io'

end Process

/-! ### Executions -/

namespace Execution

/-- The instructions that are left, a read that still waits for its byte included. -/
def Phase.left : Phase → Program
  | .running todo => todo
  | .awaiting todo => .read :: todo
  | .finished => []

/-- A byte is awaited only when a read was begun. -/
theorem eq_of_resume_awaiting {s : State} {answer : Option UInt8} {rest : Program} {m : Machine}
    (h : resume s answer = ⟨.awaiting rest, m⟩) : s = ⟨.running (.read :: rest), m⟩ := by
  rcases s with ⟨phase, m'⟩
  cases phase with
  | finished | awaiting todo => cases h
  | running todo =>
    cases todo with
    | nil => cases h
    | cons i todo =>
      cases i with
      | seek amount | loop body =>
        simp only [resume, carryOut] at h
        split at h <;> cases h
      | read =>
        cases h
        rfl
      | _ => cases h

/-- The step before a byte is awaited is the flush of the read. -/
theorem step_eq_awaiting {s : State} {io io' : Streams} {rest : Program} {m : Machine}
    (h : process.step s io = .unfinished ⟨.awaiting rest, m⟩ io') :
    s = ⟨.running (.read :: rest), m⟩ ∧ io.flush = (.ok (), io') := by
  obtain ⟨-, answer, served, begun⟩ := Process.step_eq_unfinished_iff.1 h
  obtain rfl := eq_of_resume_awaiting begun
  exact ⟨rfl, Request.flush_of_serve served⟩

/-- Where a fault can strike there is a print or a read to be done, or nothing but the last flush. -/
theorem left_of_struck {s : State} {f : Fault} {io io' : Streams} (h : (request s).Struck f io io') :
    s.phase.left = [] ∨ ∃ rest, s.phase.left = .print :: rest ∨ s.phase.left = .read :: rest := by
  have asks : ∀ r : Request, r.Struck f io io' → r ≠ .silent := by
    rintro _ ⟨⟨before, due, e⟩, -⟩ rfl
    simp [Request.schedule] at e
  rcases s with ⟨phase, m⟩
  cases phase with
  | finished => exact .inl rfl
  | awaiting todo => exact .inr ⟨todo, .inr rfl⟩
  | running todo =>
    cases todo with
    | nil => exact .inl rfl
    | cons i rest =>
      cases i with
      | print => exact .inr ⟨rest, .inl rfl⟩
      | read => exact .inr ⟨rest, .inr rfl⟩
      | _ => exact absurd rfl (asks _ h)

/-- A run that comes to a state has come before to where the same instructions were left, none of them begun, on the
same machine. -/
theorem run_before {p : Program} {m : Machine} {io io' : Streams} {s : State} {k : Nat}
    (h : process.run k (start p m) io = .unfinished s io') (goesOn : s.phase ≠ .finished) :
    ∃ j io'', j ≤ k ∧ process.run j (start p m) io = .unfinished ⟨.running s.phase.left, s.machine⟩ io'' ∧
      io'.SameBytes io'' := by
  rcases s with ⟨phase, m'⟩
  cases phase with
  | finished => exact absurd rfl goesOn
  | running todo => exact ⟨k, io', Nat.le_refl k, h, rfl, rfl, rfl⟩
  | awaiting rest =>
    cases k with
    | zero => cases h
    | succ k =>
      -- the last step was the flush of this read
      obtain ⟨s₁, io₁, before, last⟩ := Process.last_step h
      obtain ⟨rfl, flushed⟩ := step_eq_awaiting last
      exact ⟨k, io₁, Nat.le_succ k, before, Streams.sameBytes_of_flush flushed⟩

/-- If nothing but interrupted reads and writes and the end of the input is ever met, the execution comes to the end
that it comes to without faults, or to none as it does then.  Otherwise it fails with the fault that struck, and
leaves the machine and the bytes as the execution without faults has them when it comes to the print or read that
failed, or to the last flush. -/
theorem failure_cuts_run_short (p : Program) (m : Machine) {io : Streams} (honest : io.NoFalseEnd) :
    ((∀ n, io.OnlyInterrupted (process.run n (start p m) io).streams) →
      ∀ r, process.Ends (start p m) io.faultless r ↔ ∃ r', process.Ends (start p m) io r' ∧ r'.faultless = r) ∧
    ((∃ n, ¬ io.OnlyInterrupted (process.run n (start p m) io).streams) →
      ∃ f s io' k io'', process.Ends (start p m) io (.failed f s io') ∧ (request s).Struck f io io' ∧
        process.run k (start p m) io.faultless = .unfinished ⟨.running s.phase.left, s.machine⟩ io'' ∧
        (s.phase.left = [] ∨ ∃ rest, s.phase.left = .print :: rest ∨ s.phase.left = .read :: rest) ∧
        io'.SameBytes io'' ∧
        ∀ n, k ≤ n → io'.written.toList <+: (process.run n (start p m) io.faultless).streams.written.toList) := by
  constructor
  · intro clean r
    have along (n : Nat) : process.run n (start p m) io.faultless = (process.run n (start p m) io).faultless := by
      rcases Process.run_faults honest n with ⟨along, -⟩ | ⟨f, s, io', k, io'', failed, struck, -⟩
      · exact along
      · have met := clean n
        rw [failed] at met
        exact absurd struck met.not_struck
    have ended (r : Outcome State) : r.faultless.IsEnded ↔ r.IsEnded := by
      cases r <;> rfl
    constructor
    · rintro ⟨end', n, rfl⟩
      rw [along, ended] at end'
      exact ⟨_, ⟨end', n, rfl⟩, (along n).symm⟩
    · rintro ⟨_, ⟨end', n, rfl⟩, rfl⟩
      exact ⟨(ended _).2 end', n, along n⟩
  · rintro ⟨n, dirty⟩
    rcases Process.run_faults honest n with ⟨-, met⟩ | ⟨f, s, io', k, io'', failed, struck, -, comes, same⟩
    · exact absurd met dirty
    · have goesOn : s.phase ≠ .finished := by
        intro finished
        obtain ⟨⟨before, due, e⟩, -⟩ := struck
        rw [show process.request s = .halt from request_eq_halt_iff.2 finished] at e
        simp [Request.schedule] at e
      obtain ⟨j, io₀, -, earlier, same'⟩ := run_before comes goesOn
      have bytes : io'.SameBytes io₀ :=
        ⟨same.written.trans same'.written, same.input.trans same'.input, same.delivered.trans same'.delivered⟩
      refine ⟨f, s, io', j, io₀, ⟨trivial, n, failed⟩, struck, earlier, left_of_struck struck, bytes, ?_⟩
      intro l le
      rw [bytes.written]
      exact Process.written_of_run_le earlier le

/-- A write is interrupted and tried again, and the input breaks only when its end has been read. -/
private def brokenEnd : Streams := { Streams.ofInput [65] with
  writeFaults := [⟨0, .interrupted⟩], readFaults := [⟨1, .endOfFile⟩, ⟨1, .device⟩] }

/-- Prints and reads three times. -/
private def readsOn : Program := [.print, .read, .read, .read]

/-- The first read gets the byte, the second one the end of the input, and the third one fails. -/
theorem failure_behind_end_of_input :
    brokenEnd.NoFalseEnd ∧
      ∃ f s io' k io'', process.Ends (start readsOn .fresh) brokenEnd (.failed f s io') ∧
        (request s).Struck f brokenEnd io' ∧
        process.run k (start readsOn .fresh) brokenEnd.faultless
          = .unfinished ⟨.running s.phase.left, s.machine⟩ io'' ∧
        (s.phase.left = [] ∨ ∃ rest, s.phase.left = .print :: rest ∨ s.phase.left = .read :: rest) ∧
        io'.SameBytes io'' ∧
        ∀ n, k ≤ n → io'.written.toList
          <+: (process.run n (start readsOn .fresh) brokenEnd.faultless).streams.written.toList := by
  have honest : brokenEnd.NoFalseEnd := by
    unfold Streams.NoFalseEnd
    decide
  refine ⟨honest, (failure_cuts_run_short readsOn .fresh honest).2 ⟨7, fun met => ?_⟩⟩
  obtain ⟨before, e, overcome⟩ := met.reads
  have all : before = [⟨1, .endOfFile⟩, ⟨1, .device⟩] := by
    rw [show (process.run 7 (start readsOn .fresh) brokenEnd).streams.readFaults = [] from rfl] at e
    simpa [brokenEnd] using e.symm
  exact absurd (overcome ⟨1, .device⟩ (by simp [all])) (by decide)

end Execution

end TapeLang
