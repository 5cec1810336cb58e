import TapeLang.Proofs.Accounts
import TapeLang.Proofs.Catalogue

/-!
# Optimizing preserves meaning

Whatever a text is translated to, its execution comes to an end if and only if that of the literal program does, and
then both leave the same streams, cells and cursor and have printed and read equally often
(`optimized_agrees_with_literal`).  The literal execution has to stay on the tape, and the fragments of the catalogue
that need clear cells have to find them clear.
-/

namespace TapeLang

open Program

namespace Execution

variable {p q : Program} {m : Machine} {io : Streams}

/-- On streams without faults an execution that ends has run its program and flushed the output. -/
theorem ends_of_sound {r : Outcome State} (sound : io.Sound) (ends : process.Ends (start p m) io r) :
    ∃ t c io₁ io', r = .halted ⟨.finished, ⟨t, c⟩⟩ io' ∧ p.Runs ⟨m.tape, io⟩ ⟨t, io₁⟩ ∧ io₁.flush = (.ok (), io') ∧
      Balanced (start p m) io ⟨.finished, ⟨t, c⟩⟩ io' := by
  obtain ⟨⟨phase, t, c⟩, io', halt, ⟨n, leads⟩, rfl⟩ := ends.halted_of_sound sound
  obtain rfl : phase = .finished := request_eq_halt_iff.1 halt
  obtain ⟨io₁, runs, flushed⟩ := halts_iff_runs.1 ⟨c, ends⟩
  exact ⟨t, c, io₁, io', rfl, runs, flushed, run_balanced leads⟩

/-- Of programs that agree, one comes to an end if the other does. -/
theorem ends_of_agree (sound : io.Sound) (agree : Agree ⟨m.tape, io⟩ p q) (h : ∃ r, process.Ends (start p m) io r) :
    ∃ r, process.Ends (start q m) io r := by
  obtain ⟨r, ends⟩ := h
  obtain ⟨t, c, io₁, io', -, runs, flushed, -⟩ := ends_of_sound sound ends
  obtain ⟨c', ends'⟩ := halts_iff_runs.2 ⟨io₁, (agree _).1 runs, flushed⟩
  exact ⟨_, ends'⟩

/-- Two ends leave the same tape and streams, after as many prints and reads. -/
structure SameEnd (r r' : Outcome State) : Prop where
  halted : ∃ s s' io, r = .halted s io ∧ r' = .halted s' io
  tape : r.state.machine.tape = r'.state.machine.tape
  prints : r.state.machine.counters.prints = r'.state.machine.counters.prints
  reads : r.state.machine.counters.reads = r'.state.machine.counters.reads

theorem sameEnd_of_agree (sound : io.Sound) (agree : Agree ⟨m.tape, io⟩ p q) {r r' : Outcome State}
    (ends : process.Ends (start p m) io r) (ends' : process.Ends (start q m) io r') : SameEnd r r' := by
  obtain ⟨t, c, io₁, io', rfl, runs, flushed, balanced⟩ := ends_of_sound sound ends
  obtain ⟨t', c', io₁', io'', rfl, runs', flushed', balanced'⟩ := ends_of_sound sound ends'
  cases ((agree _).1 runs).unique runs'
  cases flushed.symm.trans flushed'
  have prints := balanced.prints
  have prints' := balanced'.prints
  have reads := balanced.reads
  have reads' := balanced'.reads
  simp only [State.flushesAhead, start] at prints prints' reads reads'
  exact ⟨⟨_, _, io', rfl, rfl⟩, rfl, show c.prints = c'.prints by omega, show c.reads = c'.reads by omega⟩

end Execution

open Execution

/-! ### An example of an execution that stays on the tape -/

section

variable {rest body : Program} {t : Tape} {io : Streams} {c k l : Int} {f : Int → UInt8}

/-- The execution of what is left to do stays on the tape, whatever was counted before. -/
private def StaysRunning (todo : Program) (t : Tape) (io : Streams) : Prop :=
  ∀ c, StaysOnTape ⟨.running todo, ⟨t, c⟩⟩ io

private theorem staysOnTape_of_step {s : State} (here : ∀ amount rest, s.phase = .running (.move amount :: rest) →
      OnTape (s.machine.tape.cursor + amount.toInt))
    (later : ∀ s' io', process.step s io = .unfinished s' io' → StaysOnTape s' io') : StaysOnTape s io := by
  rintro s' io' amount rest ⟨n, h⟩ phase
  cases n with
  | zero =>
    cases h
    exact here amount rest phase
  | succ n =>
    rw [Process.run_succ] at h
    cases first : process.step s io with
    | unfinished s₁ io₁ =>
      rw [first] at h
      exact later s₁ io₁ first s' io' amount rest ⟨n, h⟩ phase
    | halted s₁ io₁ =>
      rw [first] at h
      cases h
    | failed fault s₁ io₁ =>
      rw [first] at h
      cases h

private theorem stays_add {d o : Int8} (h : t.Shows c k f) (hl : k + o.toInt = l) (on : OnTape (c + l))
    (later : ∀ t', t'.Shows c k (Function.update f l (f l + d.toUInt8)) → StaysRunning rest t' io) :
    StaysRunning (.add d o :: rest) t io := by
  intro counters
  refine staysOnTape_of_step (fun _ _ phase => nomatch phase) fun s' io' first => ?_
  cases first
  exact later _ (h.add hl on _) _

private theorem stays_move {n : Int32} (h : t.Shows c k f) (hl : k + n.toInt = l) (on : OnTape (c + l))
    (later : ∀ t', t'.Shows c l f → StaysRunning rest t' io) : StaysRunning (.move n :: rest) t io := by
  intro counters
  refine staysOnTape_of_step ?_ fun s' io' first => ?_
  · intro amount rest' phase
    cases phase
    show OnTape (t.cursor + n.toInt)
    rw [h.cursor, Int.add_assoc, hl]
    exact on
  · cases first
    exact later _ (h.move hl on) _

private theorem stays_leave (h : t.Shows c k f) (zero : f k = 0) (later : StaysRunning rest t io) :
    StaysRunning (.loop body :: rest) t io := by
  intro counters
  refine staysOnTape_of_step (fun _ _ phase => nomatch phase) fun s' io' first => ?_
  obtain ⟨c', step⟩ : ∃ c', process.step ⟨.running (.loop body :: rest), ⟨t, counters⟩⟩ io = _ := step_loop
  rw [step, if_pos (h.current.trans zero)] at first
  cases first
  exact later _

private theorem stays_pass (h : t.Shows c k f) (nonzero : f k ≠ 0)
    (later : StaysRunning (body ++ .loop body :: rest) t io) : StaysRunning (.loop body :: rest) t io := by
  intro counters
  refine staysOnTape_of_step (fun _ _ phase => nomatch phase) fun s' io' first => ?_
  obtain ⟨c', step⟩ : ∃ c', process.step ⟨.running (.loop body :: rest), ⟨t, counters⟩⟩ io = _ := step_loop
  rw [step, if_neg (h.current ▸ nonzero)] at first
  cases first
  exact later _

private theorem stays_nil : StaysRunning [] t io := by
  intro c
  refine staysOnTape_of_step (fun _ _ phase => nomatch phase) fun s' io' first => ?_
  rw [step_end] at first
  split at first
  · cases first
    exact staysOnTape_of_step (fun _ _ phase => nomatch phase) fun s' io' first => nomatch first
  · cases first

end

/-- The tape of the example: a one at the right of the cursor. -/
private def oneAhead : Tape := Tape.blank.set 1 1

private theorem stays_subtraction (io : Streams) :
    StaysRunning [.add 1 0, .move 1, .loop [.add (-1) 0, .move (-1), .add (-1) 0, .move 1], .move (-1)]
      oneAhead io := by
  have h : oneAhead.Shows 0 0 oneAhead.get := oneAhead.shows_self
  have one : oneAhead.get 1 = 1 := by
    rw [oneAhead, Tape.get_set, if_pos ⟨rfl, by decide⟩]
  refine stays_add (l := 0) h rfl (by decide) fun t h => ?_
  refine stays_move (l := 1) h rfl (by decide) fun t h => ?_
  refine stays_pass h (by simp [one]) ?_
  refine stays_add (l := 1) h rfl (by decide) fun t h => ?_
  refine stays_move (l := 0) h rfl (by decide) fun t h => ?_
  refine stays_add (l := 0) h rfl (by decide) fun t h => ?_
  refine stays_move (l := 1) h rfl (by decide) fun t h => ?_
  refine stays_leave h (by simp [one]; rfl) ?_
  exact stays_move (l := 0) h rfl (by decide) fun t h => stays_nil

private theorem text_length_of_reaches {x y : Outline} {a b : Setting} (h : x.Reaches a y b) :
    y.text.length ≤ x.text.length := by
  induction h with
  | here => exact Nat.le_refl _
  | token _ _ ih =>
    simp only [Outline.text, Outline.tokens, List.length_map, List.flatMap_cons, List.length_append] at ih ⊢
    omega
  | inside _ _ _ ih | past _ _ ih =>
    simp only [Outline.text, Outline.tokens, List.length_map, List.flatMap_cons, List.flatMap_append,
      List.length_append] at ih ⊢
    omega

/-! ### All optimizations -/

/-- A text that can be translated at all can be translated literally; and whichever optimizations are made, both
programs end or neither does, and they leave the same. -/
theorem optimized_agrees_with_literal {o : Optimizations} {source : List UInt8} {q : Program}
    (translated : Program.ofSource o source = .ok q) (m : Machine) (input : List UInt8)
    (stays : ∀ p, Program.ofSource .none source = .ok p → StaysOnTape (start p m) (.ofInput input))
    (clear : o.idioms = true → ∀ opening closing body rest b,
      (Outline.ofSource source).Reaches ⟨m.tape, .ofInput input⟩ (.loop opening closing body rest) b →
        body.ClearFor b.tape) :
    ∃ p, Program.ofSource .none source = .ok p ∧
      ((∃ r, process.Ends (start p m) (.ofInput input) r) ↔ ∃ r, process.Ends (start q m) (.ofInput input) r) ∧
      ∀ r r', process.Ends (start p m) (.ofInput input) r → process.Ends (start q m) (.ofInput input) r' →
        SameEnd r r' := by
  obtain ⟨accepted, lowered⟩ := Program.ofSource_eq_ok_iff.1 translated
  have literal : Program.ofSource .none source = .ok (Outline.ofSource source).literal :=
    Program.ofSource_eq_ok_iff.2 ⟨accepted, Outline.lower_none _⟩
  have regular := Outline.regular_ofSource accepted
  have calm := Outline.calm_of_execution regular (stays _ literal) clear
  have agree := Outline.agree_lower regular lowered calm
  have sound := Streams.ofInput_sound input
  exact ⟨_, literal, ⟨ends_of_agree sound agree, ends_of_agree sound agree.symm⟩,
    fun r r' ends ends' => sameEnd_of_agree sound agree ends ends'⟩

/-- A one is subtracted from a one: the loop is entered, and the whole fragment is replaced. -/
theorem optimized_agrees_on_subtraction :
    Program.ofSource .all (Idiom.spelling (.inc :: Idiom.subtraction))
        = .ok [.add 1 0, .block Idiom.subtractionProgram] ∧
      ∃ p, Program.ofSource .none (Idiom.spelling (.inc :: Idiom.subtraction)) = .ok p ∧
        ((∃ r, process.Ends (start p ⟨oneAhead, .zero⟩) (.ofInput []) r) ↔
          ∃ r, process.Ends (start [.add 1 0, .block Idiom.subtractionProgram] ⟨oneAhead, .zero⟩) (.ofInput []) r) ∧
        ∀ r r', process.Ends (start p ⟨oneAhead, .zero⟩) (.ofInput []) r →
          process.Ends (start [.add 1 0, .block Idiom.subtractionProgram] ⟨oneAhead, .zero⟩) (.ofInput []) r' →
          SameEnd r r' := by
  refine ⟨rfl, optimized_agrees_with_literal (o := .all) rfl ⟨oneAhead, .zero⟩ [] ?_ ?_⟩
  · intro p literal
    cases literal
    exact stays_subtraction _ _
  · intro _ opening closing body rest b reaches _
    have shorter := text_length_of_reaches reaches
    have whole : (Outline.ofSource (Idiom.spelling (.inc :: Idiom.subtraction))).text.length = 9 := rfl
    have inside : body.text.length ≤ (Outline.loop opening closing body rest).text.length := by
      simp only [Outline.text, Outline.tokens, List.length_map, List.flatMap_cons, List.flatMap_append,
        List.length_append]
      omega
    have exponent : (Idiom.spelling Idiom.exponentBody).length = 43 := rfl
    have divide : (Idiom.spelling Idiom.divideBody).length = 28 := rfl
    constructor
    · intro text
      rw [text] at inside
      omega
    · intro text
      rw [text] at inside
      omega

end TapeLang
