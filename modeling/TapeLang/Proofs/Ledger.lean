import TapeLang.Proofs.Faults

/-!
# Counters as a ledger of the streams

Whatever happens to the streams, the counters of the machine account for it (`counters_account_for_streams`).  At
every moment of an execution there is a byte of output for each print that was counted, and no more bytes were taken
from the input than reads were counted.  Between two instructions the output has been flushed once for each read; at
the end there is one flush more, unless the execution failed in a print.  And nobody is asked for input as long as
some output is not flushed.
-/

namespace TapeLang

namespace Process

variable {σ : Type} {P : Process σ} {s s' : σ} {io io' : Streams}

/-- A run that ends has a last step. -/
theorem ending_step {n : Nat} {r : Outcome σ} (h : P.run n s io = r) (ended : r.IsEnded) :
    ∃ k s₁ io₁, k < n ∧ P.run k s io = .unfinished s₁ io₁ ∧ P.step s₁ io₁ = r := by
  induction n generalizing s io with
  | zero =>
    subst h
    exact ended.elim
  | succ n ih =>
    rw [run_succ] at h
    cases first : P.step s io with
    | unfinished s₁ io₁ =>
      rw [first] at h
      obtain ⟨k, s₂, io₂, before, comes, last⟩ := ih h
      refine ⟨k + 1, s₂, io₂, Nat.succ_lt_succ before, ?_, last⟩
      rw [run_succ, first]
      exact comes
    | halted s₁ io₁ | failed f s₁ io₁ =>
      rw [first] at h
      exact ⟨0, s, io, Nat.succ_pos n, rfl, first.trans h⟩

theorem serve_of_step_failed {f : Fault} (h : P.step s io = .failed f s' io') :
    s' = s ∧ (P.request s).serve io = (.error f, io') := by
  have asks : P.request s ≠ .halt := by
    intro halt
    rw [step_of_halt halt] at h
    cases h
  rw [step_of_serve asks] at h
  split at h
  · cases h
  · next served =>
    cases h
    exact ⟨rfl, served⟩

theorem eq_of_step_halted (h : P.step s io = .halted s' io') : s' = s ∧ io' = io ∧ P.request s = .halt := by
  by_cases halt : P.request s = .halt
  · rw [step_of_halt halt] at h
    cases h
    exact ⟨rfl, rfl, halt⟩
  · rw [step_of_serve halt] at h
    split at h <;> cases h

end Process

/-! ### What a request does to the streams -/

namespace Request

variable {r : Request} {io io' : Streams}

/-- A request that fails has passed no byte, but a flush that fails was called. -/
theorem sameBytes_of_serve {f : Fault} (h : r.serve io = (.error f, io')) :
    io'.SameBytes io ∧ io'.flushes = io.flushes + r.flushCalls := by
  cases r with
  | silent | halt => cases h
  | write byte =>
    simp only [serve_write, Streams.write] at h
    split at h <;> cases h
    exact ⟨⟨rfl, rfl, rfl⟩, rfl⟩
  | flush =>
    simp only [serve_flush, Streams.flush] at h
    split at h <;> cases h
    exact ⟨⟨rfl, rfl, rfl⟩, rfl⟩
  | read =>
    simp only [serve_read, Streams.read] at h
    split at h
    · cases h
    · cases h
      exact ⟨⟨rfl, rfl, rfl⟩, rfl⟩
    · split at h <;> cases h

end Request

namespace Execution

/-! ### Consumption -/

/-- The input has lost some bytes, which were delivered, and for each of them a read was counted. -/
def Consumes (m : Machine) (io : Streams) (m' : Machine) (io' : Streams) : Prop :=
  ∃ consumed, io.input = consumed ++ io'.input ∧ io'.delivered = io.delivered + consumed.length ∧
    m.counters.reads + consumed.length ≤ m'.counters.reads

theorem Consumes.trans {m m₁ m₂ : Machine} {io io₁ io₂ : Streams} (h : Consumes m io m₁ io₁)
    (h' : Consumes m₁ io₁ m₂ io₂) : Consumes m io m₂ io₂ := by
  obtain ⟨consumed, input, delivered, reads⟩ := h
  obtain ⟨consumed', input', delivered', reads'⟩ := h'
  refine ⟨consumed ++ consumed', ?_, ?_, ?_⟩
  · rw [input, input', List.append_assoc]
  · rw [delivered', delivered, List.length_append, Nat.add_assoc]
  · rw [List.length_append]
    omega

/-- A byte is taken in by a read, which is counted. -/
theorem length_taken_le (s : State) (answer : Option UInt8) :
    s.machine.counters.reads + ((request s).taken answer).length ≤ (resume s answer).machine.counters.reads := by
  rcases s with ⟨phase, m⟩
  cases phase with
  | finished => exact Nat.le_refl _
  | awaiting todo => cases answer <;> simp [request, Request.taken, resume, takeIn]
  | running todo =>
    cases todo with
    | nil => exact Nat.le_refl _
    | cons i rest =>
      cases i with
      | seek amount | loop body =>
        simp only [resume, carryOut]
        split <;> exact Nat.le_refl _
      | _ => exact Nat.le_refl _

theorem step_consumes {s s' : State} {io io' : Streams} (h : process.step s io = .unfinished s' io') :
    Consumes s.machine io s'.machine io' := by
  obtain ⟨-, answer, served, rfl⟩ := Process.step_eq_unfinished_iff.1 h
  obtain ⟨input, delivered⟩ := Request.input_of_serve served
  exact ⟨_, input, delivered, length_taken_le s answer⟩

theorem run_consumes {n : Nat} {s s' : State} {io io' : Streams} (h : process.run n s io = .unfinished s' io') :
    Consumes s.machine io s'.machine io' :=
  Process.relates_of_run (R := fun s io s' io' => Consumes s.machine io s'.machine io')
    (fun _ _ => ⟨[], rfl, rfl, Nat.le_refl _⟩) .trans step_consumes h

/-! ### The ledger -/

/-- Since the machine was `m` and the streams were `io`, a byte was written for each print that was counted, at most
one byte was consumed for each read, and there were as many calls of flush as reads, and so many more. -/
structure Accounted (m : Machine) (io : Streams) (m' : Machine) (io' : Streams) (flushesMore : Nat) : Prop where
  prints : ∃ printed, io'.written.toList = io.written.toList ++ printed ∧
    m'.counters.prints = m.counters.prints + printed.length
  reads : Consumes m io m' io'
  flushes : io'.flushes + m.counters.reads = io.flushes + m'.counters.reads + flushesMore

variable {p : Program} {m : Machine} {io io' : Streams} {n : Nat}

theorem accounted_of_run {s : State} (h : process.run n (start p m) io = .unfinished s io') :
    Accounted m io s.machine io' s.flushesAhead := by
  obtain ⟨prints, reads⟩ := run_balanced h
  have written := process.run_written n (start p m) io
  rw [h] at written
  obtain ⟨printed, grown⟩ := written
  refine ⟨⟨printed, grown.symm, ?_⟩, run_consumes h, ?_⟩
  · have size := congrArg List.length grown
    simp only [List.length_append, Array.length_toList, Outcome.streams] at size
    simp only [start] at prints
    omega
  · simp only [start, State.flushesAhead] at reads ⊢
    omega

/-- A request that fails adds nothing to the ledger but its call of flush. -/
theorem Accounted.failed {m' : Machine} {io₁ : Streams} {k l : Nat} (h : Accounted m io m' io₁ k)
    (same : io'.SameBytes io₁) (flushes : io'.flushes = io₁.flushes + l) : Accounted m io m' io' (k + l) := by
  obtain ⟨⟨printed, written, prints⟩, ⟨consumed, input, delivered, reads⟩, calls⟩ := h
  refine ⟨⟨printed, same.written ▸ written, prints⟩, ⟨consumed, ?_, ?_, reads⟩, ?_⟩
  · exact same.input ▸ input
  · exact same.delivered ▸ delivered
  · omega

/-- An execution fails in a print, in a read or in the last flush, and only the latter two call for a flush. -/
theorem phase_of_failure {s : State} {f : Fault} (h : (request s).serve io = (.error f, io')) :
    (∃ rest, s.phase = .running (.print :: rest)) ∧ s.flushesAhead + (request s).flushCalls = 0 ∨
      (s.phase = .running [] ∨ ∃ rest, s.phase = .running (.read :: rest) ∨ s.phase = .awaiting rest) ∧
        s.flushesAhead + (request s).flushCalls = 1 := by
  rcases s with ⟨phase, m⟩
  cases phase with
  | finished => cases h
  | awaiting rest => exact .inr ⟨.inr ⟨rest, .inr rfl⟩, rfl⟩
  | running todo =>
    cases todo with
    | nil => exact .inr ⟨.inl rfl, rfl⟩
    | cons i rest =>
      cases i with
      | print => exact .inl ⟨⟨rest, rfl⟩, rfl⟩
      | read => exact .inr ⟨.inr ⟨rest, .inl rfl⟩, rfl⟩
      | _ => cases h

/-- A byte is asked for right after the output was flushed. -/
theorem flushed_of_read {s : State} (h : process.run n (start p m) io = .unfinished s io')
    (asks : process.request s = .read) :
    ∃ k s₁ io₁ io₂, k < n ∧ process.run k (start p m) io = .unfinished s₁ io₁ ∧ process.request s₁ = .flush ∧
      io₁.flush = (.ok (), io₂) ∧ io₂.written = io'.written := by
  obtain ⟨rest, m', rfl⟩ : ∃ rest m', s = ⟨.awaiting rest, m'⟩ := by
    rcases s with ⟨phase, m'⟩
    cases phase with
    | awaiting rest => exact ⟨rest, m', rfl⟩
    | finished => cases asks
    | running todo =>
      cases todo with
      | nil => cases asks
      | cons i rest => cases i <;> cases asks
  cases n with
  | zero => cases h
  | succ n =>
    obtain ⟨s₁, io₁, before, last⟩ := Process.last_step h
    obtain ⟨rfl, flushed⟩ := step_eq_awaiting last
    exact ⟨n, _, io₁, io', Nat.lt_succ_self n, before, rfl, flushed, rfl⟩

/-- Between two instructions of an execution the counters account for the streams, with as many flushes as reads.
They do so at its end: a successful one has made one flush more, and so has one that failed in a read or in the last
flush, but not one that failed in a print.  Whenever a byte is asked for, the output was flushed after its last byte.
-/
theorem counters_account_for_streams (p : Program) (m : Machine) (io : Streams) (n : Nat) :
    (∀ todo m' io', process.run n (start p m) io = .unfinished ⟨.running todo, m'⟩ io' → Accounted m io m' io' 0) ∧
    (∀ s io', process.run n (start p m) io = .halted s io' → Accounted m io s.machine io' 1) ∧
    (∀ f s io', process.run n (start p m) io = .failed f s io' →
      (∃ rest, s.phase = .running (.print :: rest)) ∧ Accounted m io s.machine io' 0 ∨
      (s.phase = .running [] ∨ ∃ rest, s.phase = .running (.read :: rest) ∨ s.phase = .awaiting rest) ∧
        Accounted m io s.machine io' 1) ∧
    ∀ s io', process.run n (start p m) io = .unfinished s io' → process.request s = .read →
      ∃ k s₁ io₁ io₂, k < n ∧ process.run k (start p m) io = .unfinished s₁ io₁ ∧ process.request s₁ = .flush ∧
        io₁.flush = (.ok (), io₂) ∧ io₂.written = io'.written := by
  refine ⟨fun todo m' io' h => accounted_of_run h, ?_, ?_, fun s io' => flushed_of_read⟩
  · intro s io' h
    obtain ⟨k, s₁, io₁, -, comes, last⟩ := Process.ending_step h trivial
    obtain ⟨rfl, rfl, halt⟩ := Process.eq_of_step_halted last
    have account := accounted_of_run comes
    rwa [State.flushesAhead, request_eq_halt_iff.1 halt] at account
  · intro f s io' h
    obtain ⟨k, s₁, io₁, -, comes, last⟩ := Process.ending_step h trivial
    obtain ⟨rfl, served⟩ := Process.serve_of_step_failed last
    obtain ⟨same, flushes⟩ := Request.sameBytes_of_serve served
    have account := (accounted_of_run comes).failed same flushes
    rcases phase_of_failure served with ⟨phase, calls⟩ | ⟨phase, calls⟩
    · exact .inl ⟨phase, calls ▸ account⟩
    · exact .inr ⟨phase, calls ▸ account⟩

end Execution

end TapeLang
