import TapeLang.Process

/-!
# Steps of processes

What a step does, for each kind of request, and where steps lead to.  On streams without faults no step fails, so the
only end is that the process halts (`Ends.halted_of_sound`).
-/

namespace TapeLang

namespace Streams

/-- No fault is scheduled. -/
structure Sound (io : Streams) : Prop where
  read : io.readFaults = []
  write : io.writeFaults = []
  flush : io.flushFaults = []

theorem ofInput_sound (input : List UInt8) : (ofInput input).Sound := ⟨rfl, rfl, rfl⟩

variable {io : Streams}

theorem Sound.write_eq (h : io.Sound) (byte : UInt8) :
    io.write byte = (.ok (), { io with written := io.written.push byte }) := by
  rcases io with ⟨_, _, _, _, _, _, _⟩
  cases h.write
  rfl

theorem Sound.flush_eq (h : io.Sound) : io.flush = (.ok (), { io with flushes := io.flushes + 1 }) := by
  rcases io with ⟨_, _, _, _, _, _, _⟩
  cases h.flush
  rfl

theorem Sound.read_eq (h : io.Sound) : ∃ answer io', io.read = (.ok answer, io') ∧ io'.Sound := by
  rcases io with ⟨input, _, _, _, _, _, _⟩
  cases h.read
  cases input with
  | nil => exact ⟨none, _, rfl, rfl, h.write, h.flush⟩
  | cons byte rest => exact ⟨some byte, _, rfl, rfl, h.write, h.flush⟩

end Streams

namespace Process

variable {σ : Type} {P : Process σ} {s s₁ s₂ : σ} {io io₁ io₂ : Streams}

/-! ### One step -/

theorem step_of_silent (h : P.request s = .silent) : P.step s io = .unfinished (P.resume s none) io := by
  rw [step, h]

theorem step_of_halt (h : P.request s = .halt) : P.step s io = .halted s io := by
  rw [step, h]

theorem step_of_write {byte : UInt8} (h : P.request s = .write byte) :
    P.step s io = match io.write byte with
      | (.ok _, io) => .unfinished (P.resume s none) io
      | (.error f, io) => .failed f s io := by
  rcases served : io.write byte with ⟨_ | _, _⟩ <;> simp only [step, h, served]

theorem step_of_flush (h : P.request s = .flush) :
    P.step s io = match io.flush with
      | (.ok _, io) => .unfinished (P.resume s none) io
      | (.error f, io) => .failed f s io := by
  rcases served : io.flush with ⟨_ | _, _⟩ <;> simp only [step, h, served]

theorem step_of_read (h : P.request s = .read) :
    P.step s io = match io.read with
      | (.ok answer, io) => .unfinished (P.resume s answer) io
      | (.error f, io) => .failed f s io := by
  rcases served : io.read with ⟨_ | _, _⟩ <;> simp only [step, h, served]

/-! ### Many steps -/

/-- The process comes from one state to another, on streams that change as given. -/
def Leads (P : Process σ) (s : σ) (io : Streams) (s' : σ) (io' : Streams) : Prop :=
  ∃ n, P.run n s io = .unfinished s' io'

theorem Leads.refl : P.Leads s io s io := ⟨0, rfl⟩

theorem Leads.trans (h : P.Leads s io s₁ io₁) (h' : P.Leads s₁ io₁ s₂ io₂) : P.Leads s io s₂ io₂ := by
  obtain ⟨m, hm⟩ := h
  obtain ⟨n, hn⟩ := h'
  refine ⟨m + n, ?_⟩
  rw [run_add, hm]
  exact hn

theorem Leads.step (h : P.step s io = .unfinished s₁ io₁) (h' : P.Leads s₁ io₁ s₂ io₂) : P.Leads s io s₂ io₂ := by
  obtain ⟨n, hn⟩ := h'
  refine ⟨n + 1, ?_⟩
  rw [run_succ, h]
  exact hn

/-- A process that is led to a state comes to the end that it comes to from there. -/
theorem Leads.ends {r : Outcome σ} (h : P.Leads s io s₁ io₁) (h' : P.Ends s₁ io₁ r) : P.Ends s io r := by
  obtain ⟨m, hm⟩ := h
  obtain ⟨ended, n, hn⟩ := h'
  refine ⟨ended, m + n, ?_⟩
  rw [run_add, hm]
  exact hn

/-! ### Streams without faults -/

/-- On streams without faults a step goes on or halts, and leaves streams without faults. -/
theorem step_of_sound (P : Process σ) (s : σ) (h : io.Sound) :
    (∃ s' io', P.step s io = .unfinished s' io' ∧ io'.Sound) ∨
      (P.request s = .halt ∧ P.step s io = .halted s io) := by
  cases hr : P.request s with
  | silent => exact .inl ⟨_, io, step_of_silent hr, h⟩
  | write byte =>
    refine .inl ⟨P.resume s none, { io with written := io.written.push byte }, ?_, h.read, h.write, h.flush⟩
    rw [step_of_write hr, h.write_eq byte]
  | flush =>
    refine .inl ⟨P.resume s none, { io with flushes := io.flushes + 1 }, ?_, h.read, h.write, h.flush⟩
    rw [step_of_flush hr, h.flush_eq]
  | read =>
    obtain ⟨answer, io', asked, h'⟩ := h.read_eq
    refine .inl ⟨P.resume s answer, io', ?_, h'⟩
    rw [step_of_read hr, asked]
  | halt => exact .inr ⟨rfl, step_of_halt hr⟩

theorem run_of_sound (h : io.Sound) (n : Nat) :
    (∃ s' io', P.run n s io = .unfinished s' io') ∨
      ∃ s' io', P.request s' = .halt ∧ P.Leads s io s' io' ∧ P.run n s io = .halted s' io' := by
  induction n generalizing s io with
  | zero => exact .inl ⟨s, io, rfl⟩
  | succ n ih =>
    rw [run_succ]
    rcases P.step_of_sound s h with ⟨s', io', hstep, h'⟩ | ⟨halt, hstep⟩
    · rw [hstep]
      rcases ih h' with goesOn | ⟨s'', io'', halt, leads, hr⟩
      · exact .inl goesOn
      · exact .inr ⟨s'', io'', halt, .step hstep leads, hr⟩
    · rw [hstep]
      exact .inr ⟨s, io, halt, .refl, rfl⟩

/-- On streams without faults the only end is that the process halts. -/
theorem Ends.halted_of_sound {r : Outcome σ} (h : io.Sound) (ends : P.Ends s io r) :
    ∃ s' io', P.request s' = .halt ∧ P.Leads s io s' io' ∧ r = .halted s' io' := by
  obtain ⟨ended, n, rfl⟩ := ends
  rcases run_of_sound h n with ⟨s', io', hr⟩ | ⟨s', io', halt, leads, hr⟩
  · rw [hr] at ended
    exact ended.elim
  · exact ⟨s', io', halt, leads, hr⟩

end Process

end TapeLang
