import TapeLang.Streams

/-!
# Processes

Something that runs step by step and asks its surroundings for bytes.  `Process.run` lets it run for a number of
steps on given streams.  Whatever it asks for is answered before its state changes, so a failure leaves the state in
which it asked.  Runs compose (`run_add`), and a process comes to at most one end (`Ends.unique`).
-/

namespace TapeLang

/-- What a process wants before its next step. -/
inductive Request
  /-- Nothing: the step is its own affair. -/
  | silent
  | write (byte : UInt8)
  | flush
  | read
  /-- There is no next step. -/
  | halt
deriving DecidableEq, Repr

structure Process (σ : Type) where
  request : σ → Request
  /-- The next state, given the answer to a request for a byte.  At the end of the input, and after any other
  request, the answer is `none`. -/
  resume : σ → Option UInt8 → σ

inductive Outcome (σ : Type)
  | halted (state : σ) (streams : Streams)
  | failed (fault : Fault) (state : σ) (streams : Streams)
  /-- The steps allowed were used up before the end. -/
  | unfinished (state : σ) (streams : Streams)

namespace Outcome

variable {σ : Type}

def state : Outcome σ → σ
  | halted s _ | failed _ s _ | unfinished s _ => s

def streams : Outcome σ → Streams
  | halted _ io | failed _ _ io | unfinished _ io => io

def fault? : Outcome σ → Option Fault
  | failed f _ _ => some f
  | _ => none

/-- There is nothing left to do. -/
def IsEnded : Outcome σ → Prop
  | unfinished _ _ => False
  | _ => True

/-- Goes on from an outcome that is no end. -/
def andThen (r : Outcome σ) (continue_ : σ → Streams → Outcome σ) : Outcome σ :=
  match r with
  | unfinished s io => continue_ s io
  | ended => ended

theorem andThen_of_isEnded {r : Outcome σ} (h : r.IsEnded) (f : σ → Streams → Outcome σ) : r.andThen f = r := by
  cases r with
  | unfinished => exact h.elim
  | _ => rfl

end Outcome

namespace Process

variable {σ : Type}

/-- One step on the given streams; `unfinished` if others can follow. -/
def step (P : Process σ) (s : σ) (io : Streams) : Outcome σ :=
  match P.request s with
  | .halt => .halted s io
  | .silent => .unfinished (P.resume s none) io
  | .write byte =>
    match io.write byte with
    | (.ok _, io) => .unfinished (P.resume s none) io
    | (.error f, io) => .failed f s io
  | .flush =>
    match io.flush with
    | (.ok _, io) => .unfinished (P.resume s none) io
    | (.error f, io) => .failed f s io
  | .read =>
    match io.read with
    | (.ok answer, io) => .unfinished (P.resume s answer) io
    | (.error f, io) => .failed f s io

/-- At most `n` steps. -/
def run (P : Process σ) : Nat → σ → Streams → Outcome σ
  | 0, s, io => .unfinished s io
  | n + 1, s, io =>
    match P.step s io with
    | .unfinished s io => P.run n s io
    | ended => ended

/-- Left to itself, the process comes to this end. -/
def Ends (P : Process σ) (s : σ) (io : Streams) (r : Outcome σ) : Prop :=
  r.IsEnded ∧ ∃ n, P.run n s io = r

theorem run_succ (P : Process σ) (n : Nat) (s : σ) (io : Streams) :
    P.run (n + 1) s io = (P.step s io).andThen (P.run n) := by
  simp only [run, Outcome.andThen]

theorem run_add (P : Process σ) (m n : Nat) (s : σ) (io : Streams) :
    P.run (m + n) s io = (P.run m s io).andThen (P.run n) := by
  induction m generalizing s io with
  | zero => simp [run, Outcome.andThen]
  | succ m ih =>
    rw [Nat.succ_add, run_succ, run_succ]
    cases h : P.step s io with
    | unfinished s io => exact ih s io
    | _ => rfl

/-- More steps do not change an end. -/
theorem run_of_isEnded {P : Process σ} {n : Nat} {s : σ} {io : Streams} (h : (P.run n s io).IsEnded) (k : Nat) :
    P.run (n + k) s io = P.run n s io := by
  rw [run_add, Outcome.andThen_of_isEnded h]

theorem Ends.unique {P : Process σ} {s : σ} {io : Streams} {r r' : Outcome σ} (h : P.Ends s io r)
    (h' : P.Ends s io r') : r = r' := by
  obtain ⟨he, m, rfl⟩ := h
  obtain ⟨he', n, rfl⟩ := h'
  rcases Nat.le_total m n with hmn | hmn
  · obtain ⟨k, rfl⟩ := Nat.exists_eq_add_of_le hmn
    exact (run_of_isEnded he k).symm
  · obtain ⟨k, rfl⟩ := Nat.exists_eq_add_of_le hmn
    exact run_of_isEnded he' k

end Process

end TapeLang
