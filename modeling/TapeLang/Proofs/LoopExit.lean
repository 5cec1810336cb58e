import TapeLang.Proofs.Ledger
import TapeLang.Proofs.Lowered
import TapeLang.Proofs.Pairing
import TapeLang.Proofs.Runs
import TapeLang.Proofs.Sequencing

/-!
# Loops end on zero

Whatever a loop of a text is lowered to, it does nothing on a zero cell, and if it ends, it ends on one.  So a loop
that directly follows another loop never starts (`lowered_loop_ends_on_zero`).

Only three forms of instruction come from loops (`isLoop_of_lowerLoop`): closed forms clear the cell under the cursor,
and seeks and loops stop there because it is zero.  What is left to do while such an instruction runs always has it at
the end (`Lands`), and this is what every step keeps.
-/

namespace TapeLang

open Execution

/-- The forms of instruction that stand for a loop. -/
def Instruction.IsLoop : Instruction → Prop
  | .closed _ | .seek _ | .loop _ => True
  | _ => False

/-! ### Closed forms -/

namespace Tape

variable {t : Tape}

theorem setCurrent_of_current {v : UInt8} (h : t.current = v) : t.setCurrent v = t := by
  rw [setCurrent_eq_set]
  exact set_of_get (t.get_zero.trans h)

theorem transfer_of_zero (entries : List (Int8 × Int8)) (zero : t.current = 0) : t.transfer entries = t := by
  rw [transfer_eq, zero, addAll_zero, setCurrent_of_current zero]

end Tape

namespace ClosedForm

variable {t : Tape}

theorem apply_of_zero (form : ClosedForm) (zero : t.current = 0) : form.apply t = t := by
  cases form with
  | clear => exact Tape.setCurrent_of_current zero
  | transferAdd target | transferSub target | weighted entries => exact Tape.transfer_of_zero _ zero
  | multiply => exact Tape.multiply_of_zero zero
  | exponent => exact Tape.exponent_of_zero zero
  | divide => exact Tape.divide_of_zero zero

theorem current_apply (form : ClosedForm) (t : Tape) : (form.apply t).current = 0 := by
  by_cases zero : t.current = 0
  · rw [form.apply_of_zero zero, zero]
  · have nonzero : t.current.toNat ≠ 0 := fun h => zero (UInt8.toNat_inj.1 h)
    cases form with
    | clear | transferAdd target | transferSub target | weighted entries => exact Tape.current_setCurrent ..
    | multiply =>
      rw [apply, Tape.multiply, if_neg zero]
      exact Tape.current_setCurrent ..
    | exponent =>
      rw [apply, Tape.exponent, if_neg zero]
      exact Tape.current_setCurrent ..
    | divide =>
      rw [apply, Tape.divide, if_neg nonzero]
      exact Tape.current_setCurrent ..

end ClosedForm

/-! ### What loops are lowered to -/

theorem isLoop_of_lowerLoop {o : Optimizations} {body : Outline} {i : Instruction}
    (h : Outline.lowerLoop o body = .ok i) : i.IsLoop := by
  unfold Outline.lowerLoop at h
  split at h
  · next j replaced =>
    cases h
    rcases Outline.verdict_eq_replaced replaced with ⟨form, rfl, -⟩ | ⟨s, -, -, closed | rfl⟩
    · trivial
    · rcases LoopSummary.closedForm?_eq_some closed with ⟨sign, -, rfl⟩ | ⟨-, rfl⟩
      · trivial
      · trivial
    · trivial
  · cases h
  · obtain ⟨p, -, rfl⟩ := map_eq_ok h
    trivial

namespace Execution

variable {i : Instruction} {rest todo : Program} {m : Machine} {s : State}

/-! ### On a zero cell -/

/-- A loop that finds a zero cell is done in one silent step. -/
theorem quiet_loop_of_zero (h : i.IsLoop) (rest : Program) (zero : m.tape.current = 0) :
    ∃ c, process.Quiet 1 ⟨.running (i :: rest), m⟩ ⟨.running rest, ⟨m.tape, c⟩⟩ := by
  cases i with
  | closed form =>
    have plain := quiet_plain (i := .closed form) rfl rest m
    rwa [form.apply_of_zero zero] at plain
  | seek step => exact quiet_found step rest zero
  | loop body => exact ⟨m.counters, quiet_leave body rest zero⟩
  | _ => cases h

/-! ### At the end -/

/-- All instructions are carried out. -/
def State.IsDone (s : State) : Prop := s.phase = .running [] ∨ s.phase = .finished

/-- A loop is the last thing to do, or nothing is left to do and the cell under the cursor is zero. -/
inductive Lands : State → Prop
  | running {before : Program} {i : Instruction} {m : Machine} (last : i.IsLoop) :
    Lands ⟨.running (before ++ [i]), m⟩
  | awaiting {before : Program} {i : Instruction} {m : Machine} (last : i.IsLoop) :
    Lands ⟨.awaiting (before ++ [i]), m⟩
  | done {m : Machine} (zero : m.tape.current = 0) : Lands ⟨.running [], m⟩
  | finished {m : Machine} (zero : m.tape.current = 0) : Lands ⟨.finished, m⟩

/-- What an instruction leaves to do stands in front of what was left before. -/
theorem carryOut_cases (i : Instruction) (rest : Program) (m : Machine) :
    (∃ first m', carryOut i rest m = ⟨.running (first ++ rest), m'⟩) ∨ carryOut i rest m = ⟨.awaiting rest, m⟩ := by
  cases i with
  | read => exact .inr rfl
  | seek step =>
    simp only [carryOut]
    split
    · exact .inl ⟨[], _, rfl⟩
    · exact .inl ⟨[.seek step], _, rfl⟩
  | loop body =>
    simp only [carryOut]
    split
    · exact .inl ⟨[], _, rfl⟩
    · exact .inl ⟨body ++ [.loop body], { m with counters := _ }, by simp; rfl⟩
  | block body => exact .inl ⟨body, _, rfl⟩
  | _ => exact .inl ⟨[], _, rfl⟩

theorem lands_carryOut_last (h : i.IsLoop) (m : Machine) : Lands (carryOut i [] m) := by
  cases i with
  | closed form => exact .done (form.current_apply m.tape)
  | seek step =>
    simp only [carryOut]
    split
    · next zero => exact .done zero
    · exact @Lands.running [] _ _ h
  | loop body =>
    simp only [carryOut]
    split
    · next zero => exact .done zero
    · exact .running h
  | _ => cases h

theorem Lands.resume (h : Lands s) (answer : Option UInt8) : Lands (resume s answer) := by
  cases h with
  | @running before i m last =>
    cases before with
    | nil => exact lands_carryOut_last last m
    | cons j before =>
      show Lands (carryOut j (before ++ [i]) m)
      rcases carryOut_cases j (before ++ [i]) m with ⟨first, m', next⟩ | next
      · rw [next, ← List.append_assoc]
        exact .running last
      · rw [next]
        exact .awaiting last
  | awaiting last => exact .running last
  | done zero => exact .finished zero
  | finished zero => exact .finished zero

theorem Lands.current (h : Lands s) (done : s.IsDone) : s.machine.tape.current = 0 := by
  cases h with
  | running last | awaiting last => simp [State.IsDone] at done
  | done zero | finished zero => exact zero

/-- The execution of a loop alone, with whatever input and output, faults included. -/
theorem lands_run (h : i.IsLoop) (m : Machine) (io : Streams) (n : Nat) :
    Lands (process.run n (start [i] m) io).state :=
  Process.invariant_run (fun _ answer lands => lands.resume answer) (@Lands.running [] i m h) n io

/-! ### A loop behind a loop -/

/-- The same tape, and in the first execution `later` is left behind all that is left in the second. -/
inductive Extends (later : Program) : State → State → Prop
  | running {todo : Program} {t : Tape} {c c' : Counters} :
    Extends later ⟨.running (todo ++ later), ⟨t, c⟩⟩ ⟨.running todo, ⟨t, c'⟩⟩
  | awaiting {todo : Program} {t : Tape} {c c' : Counters} :
    Extends later ⟨.awaiting (todo ++ later), ⟨t, c⟩⟩ ⟨.awaiting todo, ⟨t, c'⟩⟩
  | finished {t : Tape} {c c' : Counters} : Extends later ⟨.finished, ⟨t, c⟩⟩ ⟨.finished, ⟨t, c'⟩⟩

theorem extends_carryOut (i : Instruction) (rest later : Program) (t : Tape) (c c' : Counters) :
    Extends later (carryOut i (rest ++ later) ⟨t, c⟩) (carryOut i rest ⟨t, c'⟩) := by
  cases i with
  | read => exact .awaiting
  | seek step =>
    by_cases zero : t.current = 0
    · simp only [carryOut, if_pos zero]
      exact .running
    · simp only [carryOut, if_neg zero]
      exact @Extends.running later (.seek step :: rest) ..
  | loop body =>
    by_cases zero : t.current = 0
    · simp only [carryOut, if_pos zero]
      exact .running
    · simp only [carryOut, if_neg zero]
      rw [← List.cons_append, ← List.append_assoc]
      exact .running
  | block body =>
    simp only [carryOut]
    rw [← List.append_assoc]
    exact .running
  | _ => exact .running

theorem bisimulation_extends {j : Instruction} (h : j.IsLoop) :
    Process.Bisimulation process process (fun s s' => Extends [j] s s' ∧ Lands s')
      fun s s' => s.machine.tape = s'.machine.tape := by
  rintro _ _ ⟨behind, lands⟩
  cases behind with
  | @running todo t c c' =>
    cases todo with
    | nil =>
      -- the first loop is done, so the second one finds a zero cell
      have zero : t.current = 0 := lands.current (.inl rfl)
      obtain ⟨c₁, skipped⟩ := quiet_loop_of_zero (m := ⟨t, c⟩) h [] zero
      exact .ask skipped .refl rfl nofun rfl fun _ _ => ⟨.finished, .finished zero⟩
    | cons i rest =>
      have same : process.request ⟨.running (i :: rest ++ [j]), ⟨t, c⟩⟩
          = process.request ⟨.running (i :: rest), ⟨t, c'⟩⟩ := by
        cases i <;> rfl
      have next (answer : Option UInt8) : Extends [j] (process.resume ⟨.running (i :: rest ++ [j]), ⟨t, c⟩⟩ answer)
          (process.resume ⟨.running (i :: rest), ⟨t, c'⟩⟩ answer) := extends_carryOut i rest [j] t c c'
      by_cases silent : process.request ⟨.running (i :: rest), ⟨t, c'⟩⟩ = .silent
      · exact .quiet (.one (same.trans silent)) (.one silent) Nat.one_pos Nat.one_pos ⟨next none, lands.resume none⟩
      · exact .ask .refl .refl same (same ▸ silent) rfl fun _ answer => ⟨next answer, lands.resume answer⟩
  | awaiting => exact .ask .refl .refl rfl nofun rfl fun _ answer => ⟨.running, lands.resume answer⟩
  | finished => exact .ask .refl .refl rfl nofun rfl fun halts => absurd rfl halts

end Execution

/-- On every machine and all streams, both programs come to an end or neither does; the ends have the same fault, the
same streams and the same tape, and until then the same passes between the programs and the streams. -/
structure Program.SameRuns (p q : Program) : Prop where
  ends_iff : ∀ m io, (∃ r, process.Ends (start p m) io r) ↔ ∃ r, process.Ends (start q m) io r
  same_end : ∀ m io r r', process.Ends (start p m) io r → process.Ends (start q m) io r' →
    r.fault? = r'.fault? ∧ r.streams = r'.streams ∧ r.state.machine.tape = r'.state.machine.tape
  same_events : ∀ m io, Process.SameEvents process (start p m) process (start q m) io

theorem Program.sameRuns_loops {i j : Instruction} (hi : i.IsLoop) (hj : j.IsLoop) : Program.SameRuns [i, j] [i] := by
  have related (m : Machine) : Extends [j] (start [i, j] m) (start [i] m) ∧ Lands (start [i] m) :=
    ⟨@Extends.running [j] [i] .., @Lands.running [] i m hi⟩
  have bisimulation := bisimulation_extends hj
  refine ⟨fun m io => bisimulation.ends_iff (related m), fun m io r r' ends ends' => ?_,
    fun m io => bisimulation.sameEvents (related m) io⟩
  cases bisimulation.corresponds (related m) ends ends' with
  | halted alike => exact ⟨rfl, rfl, alike⟩
  | failed alike => exact ⟨rfl, rfl, alike⟩

/-! ### Loops in texts -/

/-- A loop with the given body. -/
def enclose (body : List UInt8) : List UInt8 := '['.toUInt8 :: (body ++ [']'.toUInt8])

/-- The brackets of a text are balanced. -/
def BalancedText (text : List UInt8) : Prop := Balanced (text.filterMap Symbol.ofByte?)

theorem BalancedText.enclose {x : List UInt8} (h : BalancedText x) : BalancedText (enclose x) := by
  have symbols : (TapeLang.enclose x).filterMap Symbol.ofByte?
      = .opening :: (x.filterMap Symbol.ofByte? ++ [.closing]) := by
    have opens : Symbol.ofByte? '['.toUInt8 = some .opening := by decide
    rw [TapeLang.enclose, List.filterMap_cons_some opens, List.filterMap_append]
    rfl
  rw [BalancedText, symbols]
  exact .loop h .done

theorem marksFrom_enclose (n : Nat) (x : List UInt8) :
    marksFrom n (enclose x) = ⟨.opening, n⟩ :: (marksFrom (n + 1) x ++ [⟨.closing, n + 1 + x.length⟩]) := by
  have first : enclose x = Symbol.opening.toByte :: (x ++ [Symbol.closing.toByte]) := rfl
  rw [first, marksFrom_cons_symbol, marksFrom_append, marksFrom_cons_symbol]
  rfl

/-- The first symbols of an accepted text are accepted if they are balanced. -/
theorem checkBrackets_of_append {opened : List Nat} {ms later : List Mark}
    (closes : Closes opened.length (ms.map Mark.symbol)) (h : checkBrackets opened (ms ++ later) = .ok ()) :
    checkBrackets opened ms = .ok () := by
  induction ms generalizing opened with
  | nil =>
    cases opened with
    | nil => rfl
    | cons p opened => cases closes
  | cons m ms ih =>
    rcases m with ⟨symbol, position⟩
    cases symbol with
    | opening =>
      simp only [checkBrackets, List.cons_append] at h ⊢
      split at h
      · next room =>
        rw [if_pos room]
        exact ih closes h
      · cases h
    | closing =>
      cases opened with
      | nil => exact closes.elim
      | cons p opened => exact ih closes h
    | _ => exact ih closes h

theorem canonical_tokensStarting (start : Nat) (ms : List Mark) : Canonical (tokensStarting start ms) := by
  cases ms with
  | nil => exact ⟨nofun, .nil⟩
  | cons m ms => exact tokensFrom_canonical (single_valid ..) ms

theorem tokensStarting_enclose (start n : Nat) (x : List UInt8) (later : List Mark) :
    ∃ opening closing k, tokensStarting start (marksFrom n (enclose x) ++ later)
        = opening :: (tokensStarting (start + 1) (marksFrom (n + 1) x) ++ closing :: tokensStarting k later) ∧
      opening.symbol = .opening ∧ closing.symbol = .closing := by
  have marks : marksFrom n (enclose x) ++ later
      = [] ++ ⟨.opening, n⟩ :: (marksFrom (n + 1) x ++ ⟨.closing, n + 1 + x.length⟩ :: later) := by
    rw [marksFrom_enclose]
    simp
  rw [marks, tokensStarting_append rfl, tokensStarting_append rfl]
  exact ⟨_, _, _, rfl, rfl, rfl⟩

namespace Outline

/-- Where all brackets have their partners, the outline has all tokens. -/
theorem tokens_ofTokens {ts : List Token} (valid : ∀ t ∈ ts, t.Valid) (balanced : Balanced (ts.map Token.symbol)) :
    (ofTokens ts).tokens = ts := by
  rw [balanced_iff_closes, closes_map_symbol valid] at balanced
  obtain ⟨none, all⟩ := read_of_closes valid balanced
  rw [Reading.tokens, List.eq_nil_of_length_eq_zero none, List.flatMap_nil, List.append_nil] at all
  exact all

theorem tokens_ofTokens_starting (start n : Nat) {x : List UInt8} (h : BalancedText x) :
    (ofTokens (tokensStarting start (marksFrom n x))).tokens = tokensStarting start (marksFrom n x) := by
  have valid := (canonical_tokensStarting start (marksFrom n x)).valid
  refine tokens_ofTokens valid ?_
  rw [balanced_iff_closes, closes_map_symbol valid, spell_tokensStarting, Brackets.symbols_marksFrom,
    ← balanced_iff_closes]
  exact h

/-- A loop at the start of a text is the first node of the outline, with the outline of its body. -/
theorem ofTokens_enclose (start n m : Nat) {x y : List UInt8} (hx : BalancedText x) (hy : BalancedText y) :
    ∃ opening closing k, ofTokens (tokensStarting start (marksFrom n (enclose x) ++ marksFrom m y))
      = loop opening closing (ofTokens (tokensStarting (start + 1) (marksFrom (n + 1) x)))
          (ofTokens (tokensStarting k (marksFrom m y))) := by
  obtain ⟨opening, closing, k, tokens, ho, hc⟩ := tokensStarting_enclose start n x (marksFrom m y)
  have formed : (loop opening closing (ofTokens (tokensStarting (start + 1) (marksFrom (n + 1) x)))
      (ofTokens (tokensStarting k (marksFrom m y)))).Formed := ⟨ho, hc, formed_ofTokens _, formed_ofTokens _⟩
  refine ⟨opening, closing, k, ?_⟩
  rw [← formed.ofTokens_tokens, Outline.tokens, tokens_ofTokens_starting _ _ hx, tokens_ofTokens_starting _ _ hy,
    tokens]

/-- A loop alone. -/
theorem ofTokens_enclose_alone (start n : Nat) {x : List UInt8} (hx : BalancedText x) :
    ∃ opening closing, ofTokens (tokensStarting start (marksFrom n (enclose x)))
      = loop opening closing (ofTokens (tokensStarting (start + 1) (marksFrom (n + 1) x))) done := by
  obtain ⟨opening, closing, k, outline⟩ := ofTokens_enclose start n 0 hx (y := []) .done
  rw [marksFrom, List.append_nil] at outline
  exact ⟨opening, closing, outline⟩

theorem lower_loop_eq_ok {o : Optimizations} {opening closing : Token} {body rest : Outline} {p : Program}
    (h : (loop opening closing body rest).lower o = .ok p) :
    ∃ i q, lowerLoop o body = .ok i ∧ rest.lower o = .ok q ∧ p = i :: q := by
  rw [lower_loop] at h
  obtain ⟨i, first, h⟩ := bind_eq_ok h
  obtain ⟨q, later, rfl⟩ := map_eq_ok h
  exact ⟨i, q, first, later, rfl⟩

end Outline

/-- Two loops are translated to two instructions, and the first loop alone to the first one. -/
theorem ofSource_enclose {o : Optimizations} {x y : List UInt8} {p : Program} (hx : BalancedText x)
    (hy : BalancedText y) (h : Program.ofSource o (enclose x ++ enclose y) = .ok p) :
    ∃ i j, i.IsLoop ∧ j.IsLoop ∧ p = [i, j] ∧ Program.ofSource o (enclose x) = .ok [i] := by
  obtain ⟨brackets, lowered⟩ := Program.ofSource_eq_ok_iff.1 h
  rw [marks, marksFrom_append] at brackets
  have alone : checkBrackets [] (marks (enclose x)) = .ok () := by
    refine checkBrackets_of_append ?_ brackets
    rw [marks, Brackets.symbols_marksFrom]
    exact balanced_iff_closes.1 hx.enclose
  rw [Outline.ofSource, tokensOf_eq, marks, marksFrom_append] at lowered
  obtain ⟨_, _, k, both⟩ := Outline.ofTokens_enclose 0 0 (0 + (enclose x).length) hx hy.enclose
  obtain ⟨_, _, second⟩ := Outline.ofTokens_enclose_alone k (0 + (enclose x).length) hy
  rw [both, second] at lowered
  obtain ⟨i, q, first, later, rfl⟩ := Outline.lower_loop_eq_ok lowered
  obtain ⟨j, q, other, nothing, rfl⟩ := Outline.lower_loop_eq_ok later
  cases nothing
  refine ⟨i, j, isLoop_of_lowerLoop first, isLoop_of_lowerLoop other, rfl, ?_⟩
  obtain ⟨_, _, outline⟩ := Outline.ofTokens_enclose_alone 0 0 hx
  refine Program.ofSource_eq_ok_iff.2 ⟨alone, ?_⟩
  rw [Outline.ofSource, tokensOf_eq, marks, outline, Outline.lower_loop, first]
  rfl

/-- The instruction does nothing on a zero cell, where it takes one step, and whenever it is done, the cell under the
cursor is zero. -/
structure Instruction.EndsOnZero (i : Instruction) : Prop where
  skips : ∀ rest m io, m.tape.current = 0 →
    ∃ c, process.run 1 ⟨.running (i :: rest), m⟩ io = .unfinished ⟨.running rest, ⟨m.tape, c⟩⟩ io
  current : ∀ m io n, (process.run n (start [i] m) io).state.IsDone →
    (process.run n (start [i] m) io).state.machine.tape.current = 0
  ends : ∀ m io r, process.Ends (start [i] m) io r → r.fault? = none → r.state.machine.tape.current = 0

theorem Instruction.IsLoop.endsOnZero {i : Instruction} (h : i.IsLoop) : i.EndsOnZero := by
  refine ⟨fun rest m io zero => ?_, fun m io n done => (lands_run h m io n).current done, ?_⟩
  · obtain ⟨c, quiet⟩ := quiet_loop_of_zero h rest zero
    exact ⟨c, quiet.run 0 io⟩
  · rintro m io r ⟨ended, n, run⟩ faultless
    have lands := lands_run h m io n
    rw [run] at lands
    cases r with
    | unfinished s io' => exact ended.elim
    | failed f s io' => cases faultless
    | halted s io' =>
      obtain ⟨_, _, _, _, _, last⟩ := Process.ending_step run ended
      obtain ⟨rfl, rfl, halt⟩ := Process.eq_of_step_halted last
      exact lands.current (.inr (request_eq_halt_iff.1 halt))

/-- Whatever loops are lowered to ends on zero and does nothing on zero.  So two loops in a row have the same runs as
the first one alone. -/
theorem lowered_loop_ends_on_zero (o : Optimizations) :
    (∀ source scan i j instruction, Scan.ofSource source = .ok scan → scan.partner? i = some j →
      Outline.lowerLoop o (Outline.ofTokens (scan.between i j)) = .ok instruction → instruction.EndsOnZero) ∧
    ∀ x y p, BalancedText x → BalancedText y → Program.ofSource o (enclose x ++ enclose y) = .ok p →
      ∃ q, Program.ofSource o (enclose x) = .ok q ∧ p.SameRuns q := by
  constructor
  · intro _ _ _ _ _ _ _ lowered
    exact (isLoop_of_lowerLoop lowered).endsOnZero
  · intro x y p hx hy translated
    obtain ⟨i, j, first, second, rfl, alone⟩ := ofSource_enclose hx hy translated
    exact ⟨[i], alone, Program.sameRuns_loops first second⟩

/-- `[>[>+>+<<-]>>[<<+>>-]<<<-]` -/
private def productLoop : List UInt8 := enclose (Idiom.spelling Idiom.multiplyBody)

/-- `a,[-]` -/
private def readAndClear : List UInt8 := 'a'.toUInt8 :: Idiom.spelling [.get, .opening, .dec, .closing]

/-- A product is a loop, and behind a loop that reads nothing is printed in a loop. -/
theorem lowered_loop_ends_on_zero_product :
    (∃ scan, Scan.ofSource productLoop = .ok scan ∧ scan.partner? 0 = some 19 ∧
      Outline.lowerLoop .all (Outline.ofTokens (scan.between 0 19)) = .ok (.closed .multiply)) ∧
    (Instruction.closed .multiply).EndsOnZero ∧
    BalancedText readAndClear ∧ BalancedText ['.'.toUInt8] ∧
    Program.ofSource .all (enclose readAndClear ++ enclose ['.'.toUInt8])
      = .ok [.loop [.read, .closed .clear], .loop [.print]] ∧
    ∃ q, Program.ofSource .all (enclose readAndClear) = .ok q ∧
      Program.SameRuns [.loop [.read, .closed .clear], .loop [.print]] q := by
  have reading : BalancedText readAndClear := balanced_iff_closes.2 rfl
  have printing : BalancedText ['.'.toUInt8] := balanced_iff_closes.2 rfl
  refine ⟨⟨_, rfl, rfl, rfl⟩, ?_, reading, printing, rfl, ?_⟩
  · exact (lowered_loop_ends_on_zero .all).1 productLoop _ 0 19 _ rfl rfl rfl
  · exact (lowered_loop_ends_on_zero .all).2 readAndClear ['.'.toUInt8] _ reading printing rfl

end TapeLang
