import TapeLang.Proofs.Process

/-!
# Processes that do the same

Two processes do the same if from related states both go on in silence to related states, or both come to ask for the
same and are related again after every answer (`Process.Matched`).  How many silent steps they need is left open.
Then on all streams they come to corresponding ends (`Bisimulation.ends`), and until then they have the same dealings
with the streams in the same order (`Bisimulation.events`).
-/

namespace TapeLang

/-- What passes between a process and the streams. -/
inductive Event
  | wrote (byte : UInt8)
  | flushed
  /-- A byte was asked for; `none` is the end of the input. -/
  | received (answer : Option UInt8)
deriving DecidableEq, Repr

namespace Request

/-- What the streams answer. -/
def serve : Request → Streams → Except Fault (Option UInt8) × Streams
  | .write byte, io => ((io.write byte).1.map fun _ => none, (io.write byte).2)
  | .flush, io => (io.flush.1.map fun _ => none, io.flush.2)
  | .read, io => io.read
  | _, io => (.ok none, io)

/-- What has passed once the answer is there. -/
def event? : Request → Option UInt8 → Option Event
  | .write byte, _ => some (.wrote byte)
  | .flush, _ => some .flushed
  | .read, answer => some (.received answer)
  | _, _ => none

variable {io io' : Streams} {answer : Option UInt8}

theorem serve_write (byte : UInt8) (io : Streams) :
    (write byte).serve io = ((io.write byte).1.map fun _ => none, (io.write byte).2) := rfl

theorem serve_flush (io : Streams) : flush.serve io = (io.flush.1.map fun _ => none, io.flush.2) := rfl

theorem serve_read (io : Streams) : read.serve io = io.read := rfl

theorem write_of_serve {byte : UInt8} (h : (write byte).serve io = (.ok answer, io')) :
    io.write byte = (.ok (), io') := by
  rw [serve_write] at h
  rcases written : io.write byte with ⟨_ | _, _⟩ <;> rw [written] at h <;> cases h
  rfl

theorem flush_of_serve (h : flush.serve io = (.ok answer, io')) : io.flush = (.ok (), io') := by
  rw [serve_flush] at h
  rcases flushed : io.flush with ⟨_ | _, _⟩ <;> rw [flushed] at h <;> cases h
  rfl

end Request

namespace Process

variable {σ τ : Type} {P : Process σ} {Q : Process τ}

theorem step_of_serve {s : σ} (h : P.request s ≠ .halt) (io : Streams) :
    P.step s io = match (P.request s).serve io with
      | (.ok answer, io') => .unfinished (P.resume s answer) io'
      | (.error f, io') => .failed f s io' := by
  cases hr : P.request s with
  | silent => exact step_of_silent hr
  | write byte =>
    rw [step_of_write hr, Request.serve_write]
    rcases io.write byte with ⟨_ | _, _⟩ <;> rfl
  | flush =>
    rw [step_of_flush hr, Request.serve_flush]
    rcases io.flush with ⟨_ | _, _⟩ <;> rfl
  | read => exact step_of_read hr
  | halt => exact absurd hr h

/-- A step goes on exactly if what was asked for is answered. -/
theorem step_eq_unfinished_iff {s s' : σ} {io io' : Streams} :
    P.step s io = .unfinished s' io' ↔
      P.request s ≠ .halt ∧ ∃ answer, (P.request s).serve io = (.ok answer, io') ∧ P.resume s answer = s' := by
  by_cases halt : P.request s = .halt
  · simp [step_of_halt halt, halt]
  · rw [step_of_serve halt]
    rcases (P.request s).serve io with ⟨_ | answer, io₁⟩
    · simp
    · simp only [Outcome.unfinished.injEq, Prod.mk.injEq, Except.ok.injEq]
      constructor
      · rintro ⟨rfl, rfl⟩
        exact ⟨halt, answer, ⟨rfl, rfl⟩, rfl⟩
      · rintro ⟨-, _, ⟨rfl, rfl⟩, rfl⟩
        exact ⟨rfl, rfl⟩

/-- A process that comes to halt, but not at once, has its first request answered and halts from there. -/
theorem halted_of_answer {n : Nat} {s s' : σ} {io io' : Streams} (asks : P.request s ≠ .halt)
    (h : P.run n s io = .halted s' io') :
    ∃ answer io₁ k, n = k + 1 ∧ (P.request s).serve io = (.ok answer, io₁) ∧
      P.run k (P.resume s answer) io₁ = .halted s' io' := by
  cases n with
  | zero => cases h
  | succ k =>
    rw [run_succ, step_of_serve asks] at h
    rcases served : (P.request s).serve io with ⟨f | answer, io₁⟩ <;> rw [served] at h
    · cases h
    · exact ⟨answer, io₁, k, rfl, rfl, h⟩

/-- What holds of every step that goes on, and of two runs one after the other, holds of every run that goes on. -/
theorem relates_of_run {R : σ → Streams → σ → Streams → Prop} (refl : ∀ s io, R s io s io)
    (trans : ∀ {s io s₁ io₁ s₂ io₂}, R s io s₁ io₁ → R s₁ io₁ s₂ io₂ → R s io s₂ io₂)
    (step : ∀ {s io s' io'}, P.step s io = .unfinished s' io' → R s io s' io') {n : Nat} {s s' : σ} {io io' : Streams}
    (h : P.run n s io = .unfinished s' io') : R s io s' io' := by
  induction n generalizing s io with
  | zero =>
    cases h
    exact refl _ _
  | succ n ih =>
    rw [run_succ] at h
    cases first : P.step s io with
    | unfinished s₁ io₁ =>
      rw [first] at h
      exact trans (step first) (ih h)
    | halted s₁ io₁ | failed f s₁ io₁ =>
      rw [first] at h
      cases h

/-- After a step the process is in the state in which it asked, or in the one that an answer leads to. -/
theorem state_step (P : Process σ) (s : σ) (io : Streams) :
    (P.step s io).state = s ∨ ∃ answer, (P.step s io).state = P.resume s answer := by
  by_cases halt : P.request s = .halt
  · rw [step_of_halt halt]
    exact .inl rfl
  · rw [step_of_serve halt]
    rcases (P.request s).serve io with ⟨_ | answer, _⟩
    · exact .inl rfl
    · exact .inr ⟨answer, rfl⟩

/-- What is kept whatever the answers are holds along every run. -/
theorem invariant_run {I : σ → Prop} (keeps : ∀ s answer, I s → I (P.resume s answer)) {s : σ} (h : I s) (n : Nat)
    (io : Streams) : I (P.run n s io).state := by
  induction n generalizing s io with
  | zero => exact h
  | succ n ih =>
    have next : I (P.step s io).state := by
      rcases P.state_step s io with same | ⟨answer, later⟩
      · rwa [same]
      · rw [later]
        exact keeps s answer h
    rw [run_succ]
    cases stepped : P.step s io with
    | unfinished s' io' =>
      rw [stepped] at next
      exact ih next io'
    | _ =>
      rw [stepped] at next
      exact next

/-- What passes in the first `n` steps. -/
def events (P : Process σ) : Nat → σ → Streams → List Event
  | 0, _, _ => []
  | n + 1, s, io =>
    match P.step s io, (P.request s).serve io with
    | .unfinished s' io', (.ok answer, _) => ((P.request s).event? answer).toList ++ P.events n s' io'
    | _, _ => []

theorem events_of_ok {s : σ} {io io' : Streams} {answer : Option UInt8} (h : P.request s ≠ .halt)
    (served : (P.request s).serve io = (.ok answer, io')) (n : Nat) :
    P.events (n + 1) s io = ((P.request s).event? answer).toList ++ P.events n (P.resume s answer) io' := by
  rw [events, step_of_serve h, served]

theorem events_of_error {s : σ} {io io' : Streams} {f : Fault} (h : P.request s ≠ .halt)
    (served : (P.request s).serve io = (.error f, io')) (n : Nat) : P.events n s io = [] := by
  cases n with
  | zero => rfl
  | succ n => rw [events, step_of_serve h, served]

theorem events_of_halt {s : σ} {io : Streams} (h : P.request s = .halt) (n : Nat) : P.events n s io = [] := by
  cases n with
  | zero => rfl
  | succ n => rw [events, step_of_halt h]

/-! ### Silence -/

/-- So many silent steps lead from one state to another. -/
inductive Quiet (P : Process σ) : Nat → σ → σ → Prop
  | refl {s : σ} : Quiet P 0 s s
  | step {n : Nat} {s s' : σ} (silent : P.request s = .silent) (later : Quiet P n (P.resume s none) s') :
      Quiet P (n + 1) s s'

theorem Quiet.one {s : σ} (silent : P.request s = .silent) : P.Quiet 1 s (P.resume s none) := .step silent .refl

theorem Quiet.trans {m n : Nat} {s s' s'' : σ} (h : P.Quiet m s s') (h' : P.Quiet n s' s'') :
    P.Quiet (m + n) s s'' := by
  induction h with
  | refl =>
    rw [Nat.zero_add]
    exact h'
  | step silent _ ih =>
    rw [Nat.succ_add]
    exact .step silent (ih h')

theorem Quiet.run {n : Nat} {s s' : σ} (h : P.Quiet n s s') (k : Nat) (io : Streams) :
    P.run (n + k) s io = P.run k s' io := by
  induction h with
  | refl => rw [Nat.zero_add]
  | step silent _ ih => rw [Nat.succ_add, run_succ, step_of_silent silent, ← ih, Outcome.andThen]

theorem Quiet.events {n : Nat} {s s' : σ} (h : P.Quiet n s s') (k : Nat) (io : Streams) :
    P.events (n + k) s io = P.events k s' io := by
  induction h with
  | refl => rw [Nat.zero_add]
  | @step _ s _ silent _ ih =>
    have served : (P.request s).serve io = (.ok none, io) := by rw [silent]; rfl
    rw [Nat.succ_add, events_of_ok (by rw [silent]; nofun) served, silent, ih]
    rfl

/-- Nothing ends and nothing passes while there is silence. -/
theorem Quiet.before {n k : Nat} {s s' : σ} (h : P.Quiet n s s') (hk : k ≤ n) (io : Streams) :
    ¬ (P.run k s io).IsEnded ∧ P.events k s io = [] := by
  induction h generalizing k with
  | refl =>
    obtain rfl : k = 0 := Nat.le_zero.1 hk
    exact ⟨id, rfl⟩
  | @step n s _ silent _ ih =>
    cases k with
    | zero => exact ⟨id, rfl⟩
    | succ k =>
      obtain ⟨goesOn, nothing⟩ := ih (Nat.le_of_succ_le_succ hk)
      have served : (P.request s).serve io = (.ok none, io) := by rw [silent]; rfl
      rw [events_of_ok (by rw [silent]; nofun) served, run_succ, step_of_silent silent, nothing, silent]
      exact ⟨goesOn, rfl⟩

/-! ### Matching processes -/

/-- From here both processes go on in silence to related states, or come to ask for the same.  Then their states look
the same, and if they do not halt they are related after every answer. -/
inductive Matched (P : Process σ) (Q : Process τ) (Related Alike : σ → τ → Prop) (s : σ) (t : τ) : Prop
  | quiet {m n : Nat} {s' : σ} {t' : τ} (first : P.Quiet m s s') (second : Q.Quiet n t t') (pos : 0 < m)
      (pos' : 0 < n) (related : Related s' t')
  | ask {m n : Nat} {s' : σ} {t' : τ} (first : P.Quiet m s s') (second : Q.Quiet n t t')
      (same : P.request s' = Q.request t') (asks : P.request s' ≠ .silent) (alike : Alike s' t')
      (related : P.request s' ≠ .halt → ∀ answer, Related (P.resume s' answer) (Q.resume t' answer))

theorem Matched.symm {Related Alike : σ → τ → Prop} {s : σ} {t : τ} (h : Matched P Q Related Alike s t) :
    Matched Q P (fun t s => Related s t) (fun t s => Alike s t) t s := by
  cases h with
  | quiet first second pos pos' related => exact .quiet second first pos' pos related
  | ask first second same asks alike related =>
    rw [same] at asks related
    exact .ask second first same.symm asks alike related

/-- Every two related states are matched. -/
def Bisimulation (P : Process σ) (Q : Process τ) (Related Alike : σ → τ → Prop) : Prop :=
  ∀ s t, Related s t → Matched P Q Related Alike s t

variable {Related Alike : σ → τ → Prop}

theorem Bisimulation.symm (h : Bisimulation P Q Related Alike) :
    Bisimulation Q P (fun t s => Related s t) (fun t s => Alike s t) :=
  fun t s related => (h s t related).symm

/-- Two outcomes of the same kind, with the same streams and states that look the same. -/
inductive Corresponds (Alike : σ → τ → Prop) : Outcome σ → Outcome τ → Prop
  | halted {s : σ} {t : τ} {io : Streams} (alike : Alike s t) : Corresponds Alike (.halted s io) (.halted t io)
  | failed {f : Fault} {s : σ} {t : τ} {io : Streams} (alike : Alike s t) :
      Corresponds Alike (.failed f s io) (.failed f t io)

/-- An end that one of two processes comes to has a counterpart that the other comes to. -/
theorem Bisimulation.ends (h : Bisimulation P Q Related Alike) {s : σ} {t : τ} (related : Related s t) {io : Streams}
    {r : Outcome σ} (ends : P.Ends s io r) : ∃ r', Q.Ends t io r' ∧ Corresponds Alike r r' := by
  obtain ⟨ended, n, hn⟩ := ends
  -- the induction is on the number of steps of the first process, which gets smaller whenever states are related
  -- again
  induction n using Nat.strongRecOn generalizing s t io with
  | ind n ih =>
    -- silent steps of the second process can be put in front of an end
    have behind {k : Nat} {t' : τ} (quiet : Q.Quiet k t t') {r' : Outcome τ} (ends : Q.Ends t' io r') :
        Q.Ends t io r' := by
      obtain ⟨ended', j, hj⟩ := ends
      exact ⟨ended', k + j, (quiet.run j io).trans hj⟩
    cases h s t related with
    | @quiet m m' s' t' first second pos _ related' =>
      have more : m < n := by
        refine Nat.lt_of_not_le fun le => (first.before le io).1 ?_
        rw [hn]
        exact ended
      obtain ⟨k, rfl⟩ := Nat.exists_eq_add_of_le (Nat.le_of_lt more)
      rw [first.run] at hn
      obtain ⟨r', ends', corresponds⟩ := ih k (by omega) related' hn
      exact ⟨r', behind second ends', corresponds⟩
    | @ask m m' s' t' first second same asks alike related' =>
      have more : m < n := by
        refine Nat.lt_of_not_le fun le => (first.before le io).1 ?_
        rw [hn]
        exact ended
      obtain ⟨k, rfl⟩ := Nat.exists_eq_add_of_lt more
      rw [Nat.add_assoc, first.run, run_succ] at hn
      by_cases halt : P.request s' = .halt
      · rw [step_of_halt halt] at hn
        subst hn
        refine ⟨.halted t' io, behind second ⟨trivial, 1, ?_⟩, .halted alike⟩
        rw [run_succ, step_of_halt (same ▸ halt)]
        rfl
      · rw [step_of_serve halt] at hn
        cases served : (P.request s').serve io with
        | mk result io' =>
          have step' := step_of_serve (P := Q) (s := t') (same ▸ halt) io
          rw [← same, served] at step'
          rw [served] at hn
          cases result with
          | error f =>
            subst hn
            refine ⟨.failed f t' io', behind second ⟨trivial, 1, ?_⟩, .failed alike⟩
            rw [run_succ, step']
            rfl
          | ok answer =>
            obtain ⟨r', ⟨ended', j, hj⟩, corresponds⟩ := ih k (by omega) (related' halt answer) hn
            refine ⟨r', behind second ⟨ended', j + 1, ?_⟩, corresponds⟩
            rw [run_succ, step']
            exact hj

/-- Both processes come to an end, or neither does. -/
theorem Bisimulation.ends_iff (h : Bisimulation P Q Related Alike) {s : σ} {t : τ} (related : Related s t)
    {io : Streams} : (∃ r, P.Ends s io r) ↔ ∃ r, Q.Ends t io r := by
  constructor
  · rintro ⟨r, ends⟩
    obtain ⟨r', ends', -⟩ := h.ends related ends
    exact ⟨r', ends'⟩
  · rintro ⟨r, ends⟩
    obtain ⟨r', ends', -⟩ := h.symm.ends related ends
    exact ⟨r', ends'⟩

theorem Bisimulation.corresponds (h : Bisimulation P Q Related Alike) {s : σ} {t : τ} (related : Related s t)
    {io : Streams} {r : Outcome σ} {r' : Outcome τ} (ends : P.Ends s io r) (ends' : Q.Ends t io r') :
    Corresponds Alike r r' := by
  obtain ⟨r'', ends'', corresponds⟩ := h.ends related ends
  rw [ends'.unique ends'']
  exact corresponds

/-- Whatever has passed between one of two processes and the streams also passes between the other and them. -/
theorem Bisimulation.events (h : Bisimulation P Q Related Alike) {s : σ} {t : τ} (related : Related s t) (n : Nat)
    (io : Streams) : ∃ k, Q.events k t io = P.events n s io := by
  induction n using Nat.strongRecOn generalizing s t io with
  | ind n ih =>
    cases h s t related with
    | @quiet m m' s' t' first second pos _ related' =>
      rcases Nat.le_total n m with le | ge
      · exact ⟨0, (first.before le io).2.symm⟩
      · obtain ⟨k, rfl⟩ := Nat.exists_eq_add_of_le ge
        obtain ⟨j, hj⟩ := ih k (by omega) related' io
        exact ⟨m' + j, by rw [second.events, first.events, hj]⟩
    | @ask m m' s' t' first second same asks alike related' =>
      rcases Nat.lt_or_ge m n with more | le
      · obtain ⟨k, rfl⟩ := Nat.exists_eq_add_of_lt more
        rw [Nat.add_assoc, first.events]
        by_cases halt : P.request s' = .halt
        · exact ⟨0, (events_of_halt halt _).symm⟩
        · cases served : (P.request s').serve io with
          | mk result io' =>
            cases result with
            | error f => exact ⟨0, (events_of_error halt served _).symm⟩
            | ok answer =>
              obtain ⟨j, hj⟩ := ih k (by omega) (related' halt answer) io'
              refine ⟨m' + (j + 1), ?_⟩
              rw [second.events, events_of_ok halt served, events_of_ok (same ▸ halt) (same ▸ served), hj, same]
      · exact ⟨0, (first.before le io).2.symm⟩

/-- Two processes have the same dealings with the streams: whatever has passed at some time with one of them has also
passed, in the same order, at some time with the other. -/
def SameEvents (P : Process σ) (s : σ) (Q : Process τ) (t : τ) (io : Streams) : Prop :=
  (∀ n, ∃ k, Q.events k t io = P.events n s io) ∧ ∀ n, ∃ k, P.events k s io = Q.events n t io

theorem Bisimulation.sameEvents (h : Bisimulation P Q Related Alike) {s : σ} {t : τ} (related : Related s t)
    (io : Streams) : SameEvents P s Q t io :=
  ⟨fun n => h.events related n io, fun n => h.symm.events related n io⟩

end Process

end TapeLang
