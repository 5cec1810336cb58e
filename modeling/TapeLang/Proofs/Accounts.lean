import TapeLang.Execution
import TapeLang.Proofs.Bisimulation

/-!
# Counters and streams

What the counters of a machine say about the streams: every byte that is written is one print, and the output is
flushed once for every read and once at the end (`run_balanced`).  So two executions that leave the same streams
have printed and read equally often.
-/

namespace TapeLang

namespace Request

/-- How many bytes an answered request has put out. -/
def bytesOut : Request → Nat
  | .write _ => 1
  | _ => 0

def flushCalls : Request → Nat
  | .flush => 1
  | _ => 0

theorem output_of_serve {r : Request} {io io' : Streams} {answer : Option UInt8}
    (h : r.serve io = (.ok answer, io')) :
    io'.written.size = io.written.size + r.bytesOut ∧ io'.flushes = io.flushes + r.flushCalls := by
  cases r with
  | silent | halt =>
    cases h
    exact ⟨rfl, rfl⟩
  | write byte =>
    simp only [serve_write, Streams.write] at h
    split at h <;> cases h
    exact ⟨Array.size_push _, rfl⟩
  | flush =>
    simp only [serve_flush, Streams.flush] at h
    split at h <;> cases h
    exact ⟨rfl, rfl⟩
  | read =>
    simp only [serve_read, Streams.read] at h
    split at h
    · cases h
      exact ⟨rfl, rfl⟩
    · cases h
    · split at h <;> cases h <;> exact ⟨rfl, rfl⟩

/-- The bytes that an answered request has taken from the input. -/
def taken : Request → Option UInt8 → List UInt8
  | .read, answer => answer.toList
  | _, _ => []

theorem input_of_serve {r : Request} {io io' : Streams} {answer : Option UInt8} (h : r.serve io = (.ok answer, io')) :
    io.input = r.taken answer ++ io'.input ∧ io'.delivered = io.delivered + (r.taken answer).length := by
  cases r with
  | silent | halt =>
    cases h
    exact ⟨rfl, rfl⟩
  | write byte =>
    simp only [serve_write, Streams.write] at h
    split at h <;> cases h
    exact ⟨rfl, rfl⟩
  | flush =>
    simp only [serve_flush, Streams.flush] at h
    split at h <;> cases h
    exact ⟨rfl, rfl⟩
  | read =>
    simp only [serve_read, Streams.read] at h
    split at h
    · cases h
      exact ⟨rfl, rfl⟩
    · cases h
    · split at h
      · cases h
        exact ⟨rfl, rfl⟩
      · next byte rest input =>
        cases h
        exact ⟨input, rfl⟩

end Request

namespace Execution

theorem request_eq_halt_iff {s : State} : request s = .halt ↔ s.phase = .finished := by
  rcases s with ⟨phase, m⟩
  cases phase with
  | running todo =>
    cases todo with
    | nil => simp [request]
    | cons i rest => cases i <;> simp [request]
  | awaiting todo => simp [request]
  | finished => simp [request]

/-- Flushes that were made for a read that is not counted yet, or for the end. -/
def State.flushesAhead (s : State) : Nat :=
  match s.phase with
  | .running _ => 0
  | .awaiting _ | .finished => 1

/-- The counters grow as the streams do: a print for each byte written, a read for each flush. -/
structure Balanced (s : State) (io : Streams) (s' : State) (io' : Streams) : Prop where
  prints : s'.machine.counters.prints + io.written.size = s.machine.counters.prints + io'.written.size
  reads : s'.machine.counters.reads + s'.flushesAhead + io.flushes
    = s.machine.counters.reads + s.flushesAhead + io'.flushes

theorem Balanced.trans {s s₁ s₂ : State} {io io₁ io₂ : Streams} (h : Balanced s io s₁ io₁)
    (h' : Balanced s₁ io₁ s₂ io₂) : Balanced s io s₂ io₂ := by
  obtain ⟨prints, reads⟩ := h
  obtain ⟨prints', reads'⟩ := h'
  exact ⟨by omega, by omega⟩

/-- What was asked for is counted as soon as it is answered. -/
theorem counters_resume {s : State} (asks : request s ≠ .halt) (answer : Option UInt8) :
    (resume s answer).machine.counters.prints = s.machine.counters.prints + (request s).bytesOut ∧
      (resume s answer).machine.counters.reads + (resume s answer).flushesAhead
        = s.machine.counters.reads + s.flushesAhead + (request s).flushCalls := by
  rcases s with ⟨phase, m⟩
  cases phase with
  | finished => exact absurd rfl asks
  | awaiting todo => exact ⟨rfl, rfl⟩
  | running todo =>
    cases todo with
    | nil => exact ⟨rfl, rfl⟩
    | cons i rest =>
      cases i with
      | seek amount | loop body =>
        simp only [resume, carryOut]
        split <;> exact ⟨rfl, rfl⟩
      | _ => exact ⟨rfl, rfl⟩

theorem step_balanced {s s' : State} {io io' : Streams} (h : process.step s io = .unfinished s' io') :
    Balanced s io s' io' := by
  obtain ⟨asks, answer, served, rfl⟩ := Process.step_eq_unfinished_iff.1 h
  obtain ⟨written, flushes⟩ := Request.output_of_serve served
  obtain ⟨prints, reads⟩ := counters_resume asks answer
  simp only [process] at written flushes ⊢
  exact ⟨by omega, by omega⟩

theorem run_balanced {n : Nat} {s s' : State} {io io' : Streams} (h : process.run n s io = .unfinished s' io') :
    Balanced s io s' io' :=
  Process.relates_of_run (fun _ _ => ⟨rfl, rfl⟩) .trans step_balanced h

end Execution

end TapeLang
