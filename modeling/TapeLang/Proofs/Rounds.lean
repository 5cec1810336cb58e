import TapeLang.Proofs.Optimization

/-!
# Closed forms and the rounds they save

A closed form does what the loop around the canonical body does, wherever the cursor stands and whichever cells it can
reach (`closed_form_is_canonical_loop`).  If the cursor comes back after every pass, the loop always ends, and the
cell under the cursor says how often it goes round.  That is read off the counter of passes: an execution of `n`
rounds of a body without loops counts `n` passes (`leads_of_rounds`).
-/

namespace TapeLang

open Program LoopSummary

namespace Execution

variable {body rest : Program} {m : Machine} {io : Streams} {a b : Setting} {n : Nat}

/-- The program holds no loops, input and output. -/
def Plain (p : Program) : Prop := ∀ i ∈ p, i.effect?.isSome = true

theorem step_pass (nonzero : m.tape.current ≠ 0) :
    process.step ⟨.running (.loop body :: rest), m⟩ io = .unfinished ⟨.running (body ++ .loop body :: rest),
      ⟨m.tape, { m.counters with passes := m.counters.passes + 1 }⟩⟩ io :=
  congrArg (Outcome.unfinished · io) (if_neg nonzero)

/-- Without loops no pass is counted. -/
theorem leads_of_plain (plain : Plain body) (runs : body.Runs a b) (rest : Program) (c : Counters) :
    ∃ c', process.Leads ⟨.running (body ++ rest), ⟨a.tape, c⟩⟩ a.streams ⟨.running rest, ⟨b.tape, c'⟩⟩ b.streams ∧
      c'.passes = c.passes := by
  induction body generalizing a c with
  | nil =>
    cases runs_nil_iff.1 runs
    exact ⟨c, .refl, rfl⟩
  | cons i body ih =>
    obtain ⟨here, later⟩ := List.forall_mem_cons.1 plain
    obtain ⟨f, effect⟩ := Option.isSome_iff_exists.1 here
    obtain ⟨c₁, first, same⟩ : ∃ c₁, process.step ⟨.running (i :: (body ++ rest)), ⟨a.tape, c⟩⟩ a.streams
        = .unfinished ⟨.running (body ++ rest), ⟨f a.tape, c₁⟩⟩ a.streams ∧ c₁.passes = c.passes := step_plain effect
    obtain ⟨c₂, others, same'⟩ := ih later ((runs_plain_iff effect).1 runs) c₁
    exact ⟨c₂, .step first others, same'.trans same⟩

/-- After `n` rounds the loop stands where it stood, and `n` more passes are counted. -/
theorem leads_of_rounds (plain : Plain body) (rounds : Rounds body n a b) (c : Counters) :
    ∃ c', process.Leads ⟨.running [.loop body], ⟨a.tape, c⟩⟩ a.streams
        ⟨.running [.loop body], ⟨b.tape, c'⟩⟩ b.streams ∧
      c'.passes = c.passes + n := by
  induction rounds with
  | none => exact ⟨c, .refl, rfl⟩
  | next _ last ih =>
    obtain ⟨nonzero, once⟩ := last
    obtain ⟨c₁, before, count⟩ := ih
    obtain ⟨c₂, inside, same⟩ := leads_of_plain plain once [.loop body] { c₁ with passes := c₁.passes + 1 }
    refine ⟨c₂, before.trans (.step (step_pass nonzero) inside), ?_⟩
    rw [same]
    show c₁.passes + 1 = _
    omega

/-- A loop whose last round leaves a zero ends, and all its rounds are counted. -/
theorem ends_of_rounds {t : Tape} (plain : Plain body) (sound : io.Sound)
    (rounds : Rounds body n ⟨m.tape, io⟩ ⟨t, io⟩) (zero : t.current = 0) :
    ∃ r, process.Ends (start [.loop body] m) io r ∧
      r.state.machine.counters.passes = m.counters.passes + n := by
  obtain ⟨c, leads, count⟩ := leads_of_rounds plain rounds m.counters
  refine ⟨.halted ⟨.finished, ⟨t, c⟩⟩ { io with flushes := io.flushes + 1 }, leads.ends ⟨trivial, 3, ?_⟩, count⟩
  have leave : process.step ⟨.running [.loop body], ⟨t, c⟩⟩ io = .unfinished ⟨.running [], ⟨t, c⟩⟩ io :=
    congrArg (Outcome.unfinished · io) (if_pos zero)
  rw [Process.run_succ, leave]
  show process.run 2 _ io = _
  rw [Process.run_succ, step_end, sound.flush_eq]
  rfl

end Execution

open Execution

variable {s : LoopSummary} {i : Instruction} {m : Machine} {io : Streams}

theorem plain_canonicalBody (s : LoopSummary) : Plain s.canonicalBody := by
  intro i mem
  rcases List.mem_append.1 mem with mem | mem
  · obtain ⟨entry, -, rfl⟩ := List.mem_map.1 mem
    rfl
  · split at mem
    · cases mem
    · cases List.mem_singleton.1 mem
      rfl

/-- With the cursor back after every pass, a counter that goes down says how often the loop goes round, and a counter
that goes up how far it is from 256. -/
theorem ends_after_rounds (asc : s.deltas.Ascending) (closed : s.closedForm? = some i) (still : s.displacement = 0)
    (sound : io.Sound) :
    ∃ r, process.Ends (start [.loop s.canonicalBody] m) io r ∧
      (s.deltas.at? 0 = some (-1) ∧
          r.state.machine.counters.passes = m.counters.passes + m.tape.current.toNat ∨
        s.deltas.at? 0 = some 1 ∧
          r.state.machine.counters.passes = m.counters.passes + (256 - m.tape.current.toNat) % 256) := by
  have ends {δ : Int8} (sign : Int8) (counter : s.deltas.at? 0 = some δ) (opposite : δ.toUInt8 = -sign.toUInt8)
      (unit : sign.toUInt8 * sign.toUInt8 = 1) :
      ∃ r, process.Ends (start [.loop s.canonicalBody] m) io r ∧
        r.state.machine.counters.passes = m.counters.passes + (sign.toUInt8 * m.tape.current).toNat :=
    ends_of_rounds (plain_canonicalBody s) sound (rounds_counting_loop still asc counter opposite unit m.tape io)
      (Tape.current_setCurrent ..)
  unfold closedForm? at closed
  rw [if_pos still] at closed
  split at closed
  · next counter =>
    obtain ⟨r, ended, count⟩ := ends 1 counter rfl rfl
    refine ⟨r, ended, .inl ⟨counter, ?_⟩⟩
    rw [count]
    exact congrArg (m.counters.passes + UInt8.toNat ·) (UInt8.one_mul _)
  · split at closed
    · next counter =>
      obtain ⟨r, ended, count⟩ := ends (-1) counter rfl rfl
      refine ⟨r, ended, .inr ⟨counter, ?_⟩⟩
      have negated : (-1 : Int8).toUInt8 * m.tape.current = -m.tape.current := by
        show (-1 : UInt8) * _ = _
        grind
      rw [count, negated, UInt8.toNat_neg]
    · cases closed

/-- Whatever the changes of a loop that has a closed form, and wherever it starts, the loop around its canonical body
ends if and only if the closed form does, and both leave the same.  If the cursor comes back after every pass, the
loop does end: after as many passes as the cell under the cursor says, or as many as are missing to 256. -/
theorem closed_form_is_canonical_loop {s : LoopSummary} {i : Instruction} (asc : s.deltas.Ascending)
    (closed : s.closedForm? = some i) (m : Machine) (input : List UInt8) :
    ((∃ r, process.Ends (start [i] m) (.ofInput input) r) ↔
      ∃ r, process.Ends (start [.loop s.canonicalBody] m) (.ofInput input) r) ∧
    (∀ r r', process.Ends (start [i] m) (.ofInput input) r →
      process.Ends (start [.loop s.canonicalBody] m) (.ofInput input) r' → SameEnd r r') ∧
    (s.displacement = 0 → ∃ r, process.Ends (start [.loop s.canonicalBody] m) (.ofInput input) r ∧
      (s.deltas.at? 0 = some (-1) ∧
          r.state.machine.counters.passes = m.counters.passes + m.tape.current.toNat ∨
        s.deltas.at? 0 = some 1 ∧
          r.state.machine.counters.passes = m.counters.passes + (256 - m.tape.current.toNat) % 256)) := by
  have sound := Streams.ofInput_sound input
  have agree := (agree_closedForm asc closed ⟨m.tape, .ofInput input⟩).symm
  refine ⟨⟨ends_of_agree sound agree, ends_of_agree sound agree.symm⟩, ?_, ?_⟩
  · intro r r' ends ends'
    exact sameEnd_of_agree sound agree ends ends'
  · intro still
    exact ends_after_rounds asc closed still sound

/-- A counter that goes up, with one target off the tape, one change that is its own opposite and one that is zero. -/
private def upward : LoopSummary := ⟨0, [(-3, -128), (0, 1), (1, 0), (2, 5)]⟩

/-- The second cell from the left is three short of 256. -/
private def threeShort : Machine := ⟨(Tape.blank.move 1).setCurrent 253, .zero⟩

/-- The loop goes round three times and leaves what the closed form leaves. -/
theorem upward_counter_goes_round_three_times :
    upward.deltas.Ascending ∧
      upward.closedForm? = some (.closed (.weighted [(-3, -128), (1, 0), (2, -5)])) ∧
      ∃ r r', process.Ends (start [.closed (.weighted [(-3, -128), (1, 0), (2, -5)])] threeShort) (.ofInput []) r ∧
        process.Ends (start [.loop upward.canonicalBody] threeShort) (.ofInput []) r' ∧ SameEnd r r' ∧
        r'.state.machine.counters.passes = 3 := by
  have asc : upward.deltas.Ascending := by
    unfold Deltas.Ascending
    decide
  have closed : upward.closedForm? = some (.closed (.weighted [(-3, -128), (1, 0), (2, -5)])) := rfl
  have current : threeShort.tape.current = 253 := Tape.current_setCurrent ..
  obtain ⟨iff, same, rounds⟩ := closed_form_is_canonical_loop asc closed threeShort []
  obtain ⟨r', ends', ⟨down, -⟩ | ⟨-, count⟩⟩ := rounds rfl
  · cases down
  · obtain ⟨r, ends⟩ := iff.2 ⟨r', ends'⟩
    refine ⟨asc, closed, r, r', ends, ends', same r r' ends ends', ?_⟩
    rw [count, current]
    rfl

end TapeLang
