import TapeLang.Proofs.Faults
import TapeLang.Proofs.Language
import TapeLang.Proofs.Optimization
import TapeLang.Proofs.Places

/-!
# One text after the other

The translation of two texts written one after the other does what the two translations do one after the other
(`concatenation_is_sequencing`).  The two are not the same list of instructions: where the texts meet, runs are merged
and cut anew, and a fragment of the catalogue can come about or be lost.  So programs are compared with their
`steps`, in which every symbol is an instruction of its own.  The steps of a text are the steps of its parts
(`steps_append`), and every program agrees with its steps (`lower_steps`).
-/

namespace TapeLang

open Program Execution

/-! ### Programs that agree everywhere -/

/-- From every setting, two programs come to the same end or both to none. -/
def Program.Alike (p q : Program) : Prop := ∀ a, Agree a p q

namespace Program

variable {p p' q q' r : Program}

theorem Alike.refl (p : Program) : Alike p p := fun a => .refl a p

theorem Alike.symm (h : Alike p q) : Alike q p := fun a => (h a).symm

theorem Alike.trans (h : Alike p q) (h' : Alike q r) : Alike p r := fun a => (h a).trans (h' a)

theorem Alike.append (h : Alike p p') (h' : Alike q q') : Alike (p ++ q) (p' ++ q') :=
  fun a => (h a).append fun b _ => h' b

theorem alike_block (p : Program) : Alike [.block p] p := fun _ _ => runs_block_iff

/-- Two results of a translation: programs that agree everywhere, or errors. -/
inductive SameResult : Except SourceError Program → Except SourceError Program → Prop
  | ok {p q : Program} (alike : Alike p q) : SameResult (.ok p) (.ok q)
  | error {e e' : SourceError} : SameResult (.error e) (.error e')

theorem SameResult.append {e e' : Except SourceError Program} (h : SameResult e e') (head : Alike p q) :
    SameResult (e.map (p ++ ·)) (e'.map (q ++ ·)) := by
  cases h with
  | ok alike => exact .ok (head.append alike)
  | error => exact .error

end Program

/-! ### A run as single symbols -/

theorem Symbol.repeated_zero (s : Symbol) (t : Tape) : s.repeated 0 t = t := by
  cases s with
  | right | left => exact t.move_zero
  | inc | dec => exact t.add_zero 0
  | _ => rfl

/-- A symbol as a token of its own, without a place. -/
def Token.unit (s : Symbol) : Token := ⟨s, 1, 0, 0⟩

theorem runs_units {s : Symbol} (run : s.isRun = true) (n : Nat) {a b : Setting} :
    Runs (List.replicate n (Token.unit s).instruction) a b ↔ ⟨s.repeated n a.tape, a.streams⟩ = b := by
  have single : (Token.unit s).instruction.effect? = some (s.repeated 1) :=
    effect_instruction (k := Token.unit s) run (show 1 ≤ maxRun by decide)
  induction n generalizing a with
  | zero => rw [List.replicate_zero, runs_nil_iff, Symbol.repeated_zero]
  | succ n ih =>
    have later := @ih ⟨s.repeated 1 a.tape, a.streams⟩
    rw [Symbol.repeated_succ] at later
    rw [List.replicate_succ]
    exact (runs_plain_iff single).trans later

/-- A token does what its symbols do one by one. -/
theorem alike_units {k : Token} (valid : k.Valid) :
    Alike [k.instruction] (List.replicate k.count (Token.unit k.symbol).instruction) := by
  intro a b
  cases run : k.symbol.isRun with
  | true => rw [runs_plain_iff (effect_instruction run valid.small), runs_nil_iff, runs_units run]
  | false =>
    have same : k.instruction = (Token.unit k.symbol).instruction := by
      rw [Token.instruction, valid.single run]
      rfl
    rw [valid.single run, same]
    rfl

namespace Outline

/-- So many single symbols in front of an outline. -/
def units (s : Symbol) : Nat → Outline → Outline
  | 0, rest => rest
  | n + 1, rest => token (.unit s) (units s n rest)

/-- The outline with every run cut into single symbols, without places. -/
def spread : Outline → Outline
  | done => done
  | token k rest => units k.symbol k.count rest.spread
  | loop _ _ body rest => loop (.unit .opening) (.unit .closing) body.spread rest.spread

variable {x y body rest : Outline} {o : Optimizations}

theorem tokens_units (s : Symbol) (n : Nat) (rest : Outline) :
    (units s n rest).tokens = (List.replicate n s).map Token.unit ++ rest.tokens := by
  induction n with
  | zero => rfl
  | succ n ih => rw [units, tokens, ih, List.replicate_succ, List.map_cons, List.cons_append]

theorem formed_units {s : Symbol} (ho : s ≠ .opening) (hc : s ≠ .closing) (n : Nat) (h : rest.Formed) :
    (units s n rest).Formed := by
  induction n with
  | zero => exact h
  | succ n ih => exact ⟨ho, hc, ih⟩

theorem tokens_spread (h : x.Regular) : x.spread.tokens = x.symbols.map Token.unit := by
  induction x with
  | done => rfl
  | token k rest ih => rw [spread, tokens_units, ih h.token.2, symbols_token, List.map_append, Token.spell]
  | loop opening closing body rest ihBody ihRest =>
    rw [spread, tokens, ihBody h.body, ihRest h.rest, symbols_loop h]
    simp

theorem formed_spread (h : x.Formed) : x.spread.Formed := by
  induction x with
  | done => trivial
  | token k rest ih => exact formed_units h.1 h.2.1 k.count (ih h.2.2)
  | loop opening closing body rest ihBody ihRest => exact ⟨rfl, rfl, ihBody h.2.2.1, ihRest h.2.2.2⟩

theorem symbols_spread (h : x.Regular) : x.spread.symbols = x.symbols := by
  rw [symbols, tokens_spread h, List.flatMap_map]
  exact List.flatMap_singleton' _

/-- The symbols of an outline are enough to tell how it is spread. -/
theorem spread_eq_append {z : Outline} (hx : x.Regular) (hy : y.Regular) (hz : z.Regular)
    (h : z.symbols = x.symbols ++ y.symbols) : z.spread = x.spread.append y.spread := by
  have tokens : z.spread.tokens = x.spread.tokens ++ y.spread.tokens := by
    rw [tokens_spread hx, tokens_spread hy, tokens_spread hz, h, List.map_append]
  rw [← (formed_spread hz.formed).ofTokens_tokens, tokens, ofTokens, read_tokens_append (formed_spread hx.formed)]
  exact congrArg x.spread.append (formed_spread hy.formed).ofTokens_tokens

/-! ### The steps of an outline -/

/-- One instruction for every symbol outside of loops and one for every loop, whose body is read anew from its
symbols. -/
def steps (o : Optimizations) : Outline → Except SourceError Program
  | done => .ok []
  | token k rest => (rest.steps o).map (k.instruction :: ·)
  | loop _ _ body rest =>
    (lowerLoop o (ofSymbols body.symbols)).bind fun head => (rest.steps o).map (head :: ·)

theorem steps_append (x y : Outline) :
    (x.append y).steps o = (x.steps o).bind fun p => (y.steps o).map (p ++ ·) := by
  induction x with
  | done =>
    simp only [append, steps, Except.bind, List.nil_append]
    cases y.steps o <;> rfl
  | token k rest ih =>
    rw [append, steps, steps, ih]
    cases rest.steps o with
    | error e => rfl
    | ok p => cases y.steps o <;> rfl
  | loop opening closing body rest _ ih =>
    rw [append, steps, steps, ih]
    cases lowerLoop o (ofSymbols body.symbols) with
    | error e => rfl
    | ok i =>
      cases rest.steps o with
      | error e => rfl
      | ok p => cases y.steps o <;> rfl

theorem steps_units (s : Symbol) (n : Nat) (rest : Outline) :
    (units s n rest).steps o = (rest.steps o).map (List.replicate n (Token.unit s).instruction ++ ·) := by
  induction n with
  | zero =>
    simp only [units, List.replicate_zero, List.nil_append]
    cases rest.steps o <;> rfl
  | succ n ih =>
    rw [units, steps, ih]
    cases rest.steps o <;> rfl

/-- Read anew from its symbols, a body is lowered to the same. -/
theorem lowerLoop_ofSymbols (h : body.Regular) :
    lowerLoop o (ofSymbols body.symbols) = (lowerLoop o body).mapError (SourceError.relocate fun _ => 0) := by
  have text : body.text = Idiom.spelling body.symbols := rfl
  rw [← h.bare_eq text, bare_eq_map, lowerLoop, lowerLoop, verdict_places Token.places_bare,
    lower_places Token.places_bare]
  cases verdict o body with
  | replaced i => rfl
  | rejected e => rfl
  | kept => cases lower o body <;> rfl

private theorem token_steps {k : Token} (valid : k.Valid) (h : SameResult (rest.lower o) (rest.spread.steps o)) :
    SameResult ((rest.lower o).map (k.instruction :: ·)) ((token k rest).spread.steps o) := by
  rw [spread, steps_units]
  exact h.append (alike_units valid)

/-- The fragment `>[-<->]<` stands for three steps. -/
private theorem subtraction_steps {before after opening closing : Token} (idioms : o.idioms = true)
    (sub : IsSubtraction before body after) (regular : body.Regular) :
    (token before (loop opening closing body (token after rest))).spread.steps o
      = (rest.spread.steps o).map (Idiom.subtractionProgram ++ ·) := by
  obtain ⟨hb, text, ha⟩ := sub
  obtain ⟨symbol, count⟩ := Token.single_of_spell hb
  obtain ⟨symbol', count'⟩ := Token.single_of_spell ha
  have symbols : body.symbols = Idiom.subtractionBody :=
    (List.map_injective_iff.2 fun _ _ => Symbol.toByte_injective) text
  have middle : lowerLoop o (ofSymbols Idiom.subtractionBody) = .ok (.closed (.transferSub (-1))) := by
    rcases o with ⟨_, closedForms⟩
    cases idioms
    cases closedForms <;> rfl
  simp only [spread, symbol, count, symbol', count', units, steps, symbols_spread regular, symbols, middle]
  cases rest.spread.steps o <;> rfl

/-- What an outline is lowered to does what its steps do. -/
theorem lower_steps (regular : x.Regular) : SameResult (x.lower o) (x.spread.steps o) := by
  fun_induction lower o x with
  | case1 => exact .ok (.refl [])
  | case2 before opening closing body after rest sub ih =>
    have later := regular.token.2.rest.token.2
    rw [subtraction_steps sub.1 sub.2 regular.token.2.body]
    exact (ih later).append (p := [.block Idiom.subtractionProgram]) (alike_block _)
  | case3 before opening closing body after rest _ ih => exact token_steps regular.token.1 (ih regular.token.2)
  | case4 k rest _ ih => exact token_steps regular.token.1 (ih regular.token.2)
  | case5 opening closing body rest lowered _ ih =>
    have head : lowered = lowerLoop o body := rfl
    rw [head, spread, steps, symbols_spread regular.body, lowerLoop_ofSymbols regular.body]
    cases lowerLoop o body with
    | error e => exact .error
    | ok i => exact (ih regular.rest).append (.refl [i])

end Outline

/-! ### Two texts -/

theorem marksFrom_eq_map (n : Nat) (source : List UInt8) :
    marksFrom n source = (marks source).map (Mark.relocate (n + ·)) := by
  have shifted (k : Nat) : marksFrom (n + k) source = (marksFrom k source).map (Mark.relocate (n + ·)) := by
    induction source generalizing k with
    | nil => rfl
    | cons byte rest ih =>
      have later := ih (k + 1)
      simp only [marksFrom]
      split
      · exact congrArg _ later
      · exact later
  exact shifted 0

/-- After brackets that match, a text is judged by what follows. -/
theorem checkBrackets_append {opened : List Nat} {ms : List Mark} (h : checkBrackets opened ms = .ok ())
    (later : List Mark) : checkBrackets opened (ms ++ later) = checkBrackets [] later := by
  induction ms generalizing opened with
  | nil =>
    cases opened with
    | nil => rfl
    | cons p opened => cases h
  | cons m ms ih =>
    rcases m with ⟨symbol, position⟩
    cases symbol with
    | opening =>
      simp only [checkBrackets, List.cons_append] at h ⊢
      split at h
      · next room =>
        rw [if_pos room]
        exact ih h
      · cases h
    | closing =>
      cases opened with
      | nil => cases h
      | cons p opened => exact ih h
    | _ => exact ih h

theorem accepted_append {s t : List UInt8} (hs : checkBrackets [] (marks s) = .ok ())
    (ht : checkBrackets [] (marks t) = .ok ()) : checkBrackets [] (marks (s ++ t)) = .ok () := by
  have shifted : checkBrackets [] ((marks t).map (Mark.relocate (s.length + ·))) = _ :=
    checkBrackets_relocate (s.length + ·) [] (marks t)
  rw [marks, marksFrom_append, ← marks, checkBrackets_append hs, Nat.zero_add, marksFrom_eq_map, shifted, ht]
  rfl

theorem Outline.symbols_ofSource {source : List UInt8} (h : checkBrackets [] (marks source) = .ok ()) :
    (Outline.ofSource source).symbols = (marks source).map Mark.symbol := by
  rw [Outline.symbols, Outline.tokens_ofSource h, spell_tokensOf]

theorem symbols_append (s t : List UInt8) :
    (marks (s ++ t)).map Mark.symbol = (marks s).map Mark.symbol ++ (marks t).map Mark.symbol := by
  rw [marks, marksFrom_append, marksFrom_eq_map (0 + s.length) t, List.map_append, List.map_map]
  rfl

/-- Two texts that can be translated can be translated together, to a program that does what the two do. -/
theorem ofSource_append {o : Optimizations} {s t : List UInt8} {p q : Program} (hs : Program.ofSource o s = .ok p)
    (ht : Program.ofSource o t = .ok q) : ∃ r, Program.ofSource o (s ++ t) = .ok r ∧ Alike r (p ++ q) := by
  obtain ⟨brackets, lowered⟩ := Program.ofSource_eq_ok_iff.1 hs
  obtain ⟨brackets', lowered'⟩ := Program.ofSource_eq_ok_iff.1 ht
  have both := accepted_append brackets brackets'
  have regular := Outline.regular_ofSource brackets
  have regular' := Outline.regular_ofSource brackets'
  have regularBoth := Outline.regular_ofSource both
  have spread : (Outline.ofSource (s ++ t)).spread
      = (Outline.ofSource s).spread.append (Outline.ofSource t).spread := by
    apply Outline.spread_eq_append regular regular' regularBoth
    rw [Outline.symbols_ofSource brackets, Outline.symbols_ofSource brackets', Outline.symbols_ofSource both,
      symbols_append]
  have first := Outline.lower_steps (o := o) regular
  have second := Outline.lower_steps (o := o) regular'
  have whole := Outline.lower_steps (o := o) regularBoth
  rw [spread, Outline.steps_append] at whole
  rw [lowered] at first
  rw [lowered'] at second
  generalize (Outline.ofSource s).spread.steps o = e at first whole
  generalize (Outline.ofSource t).spread.steps o = e' at second whole
  cases first with
  | @ok _ p' alike =>
    cases second with
    | @ok _ q' alike' =>
      generalize hr : (Outline.ofSource (s ++ t)).lower o = e'' at whole
      cases whole with
      | @ok r _ same =>
        refine ⟨r, Program.ofSource_eq_ok_iff.2 ⟨both, hr⟩, ?_⟩
        exact same.trans (alike.append alike').symm

/-! ### Executions one after the other -/

/-- Streams without faults that differ in nothing but how often they were flushed. -/
structure Streams.Twins (io io' : Streams) : Prop where
  sound : io.Sound
  sound' : io'.Sound
  same : io.SameBytes io'

namespace Streams

variable {io io' io₁ : Streams}

theorem Twins.symm (h : io.Twins io') : io'.Twins io :=
  ⟨h.sound', h.sound, h.same.written.symm, h.same.input.symm, h.same.delivered.symm⟩

theorem Twins.write (h : io.Twins io') {byte : UInt8} (done : io.write byte = (.ok (), io₁)) :
    ∃ io₁', io'.write byte = (.ok (), io₁') ∧ io₁.Twins io₁' := by
  rw [h.sound.write_eq] at done
  cases done
  refine ⟨_, h.sound'.write_eq byte, ⟨h.sound.read, h.sound.write, h.sound.flush⟩,
    ⟨h.sound'.read, h.sound'.write, h.sound'.flush⟩, ?_, h.same.input, h.same.delivered⟩
  rw [h.same.written]

theorem Twins.flush (h : io.Twins io') (done : io.flush = (.ok (), io₁)) :
    ∃ io₁', io'.flush = (.ok (), io₁') ∧ io₁.Twins io₁' := by
  rw [h.sound.flush_eq] at done
  cases done
  exact ⟨_, h.sound'.flush_eq, ⟨h.sound.read, h.sound.write, h.sound.flush⟩,
    ⟨h.sound'.read, h.sound'.write, h.sound'.flush⟩, h.same.written, h.same.input, h.same.delivered⟩

/-- After a flush, streams are twins of what they were. -/
theorem Sound.twins_flush (h : io.Sound) (done : io.flush = (.ok (), io₁)) : io.Twins io₁ := by
  rw [h.flush_eq] at done
  cases done
  exact ⟨h, ⟨h.read, h.write, h.flush⟩, rfl, rfl, rfl⟩

theorem Twins.read (h : io.Twins io') {answer : Option UInt8} (asked : io.read = (.ok answer, io₁)) :
    ∃ io₁', io'.read = (.ok answer, io₁') ∧ io₁.Twins io₁' := by
  obtain ⟨⟨hr, hw, hf⟩, ⟨hr', hw', hf'⟩, written, input, delivered⟩ := h
  rcases io with ⟨bytes, _, _, _, _, _, _⟩
  rcases io' with ⟨_, _, _, _, _, _, _⟩
  cases hr
  cases hr'
  cases input
  cases bytes with
  | nil =>
    cases asked
    exact ⟨_, rfl, ⟨rfl, hw, hf⟩, ⟨rfl, hw', hf'⟩, written, rfl, delivered⟩
  | cons byte rest =>
    cases asked
    exact ⟨_, rfl, ⟨rfl, hw, hf⟩, ⟨rfl, hw', hf'⟩, written, rfl, congrArg (· + 1) delivered⟩

end Streams

/-- How often the output was flushed before makes no difference to a run. -/
theorem Program.Runs.twins {p : Program} {a b : Setting} (h : Runs p a b) {io : Streams}
    (twins : a.streams.Twins io) :
    ∃ io', Runs p ⟨a.tape, io⟩ ⟨b.tape, io'⟩ ∧ b.streams.Twins io' := by
  induction h generalizing io with
  | done => exact ⟨io, .done, twins⟩
  | plain effect _ ih =>
    obtain ⟨io', runs, twins'⟩ := ih twins
    exact ⟨io', .plain effect runs, twins'⟩
  | print written _ ih =>
    obtain ⟨io₁, written', twins₁⟩ := twins.write written
    obtain ⟨io', runs, twins'⟩ := ih twins₁
    exact ⟨io', .print written' runs, twins'⟩
  | read flushed asked _ ih =>
    obtain ⟨io₁, flushed', twins₁⟩ := twins.flush flushed
    obtain ⟨io₂, asked', twins₂⟩ := twins₁.read asked
    obtain ⟨io', runs, twins'⟩ := ih twins₂
    exact ⟨io', .read flushed' asked' runs, twins'⟩
  | found zero _ ih =>
    obtain ⟨io', runs, twins'⟩ := ih twins
    exact ⟨io', .found zero runs, twins'⟩
  | seek nonzero _ ih =>
    obtain ⟨io', runs, twins'⟩ := ih twins
    exact ⟨io', .seek nonzero runs, twins'⟩
  | leave zero _ ih =>
    obtain ⟨io', runs, twins'⟩ := ih twins
    exact ⟨io', .leave zero runs, twins'⟩
  | pass nonzero _ _ ihBody ih =>
    obtain ⟨io₁, once, twins₁⟩ := ihBody twins
    obtain ⟨io', again, twins'⟩ := ih twins₁
    exact ⟨io', .pass nonzero once again, twins'⟩
  | block _ _ ihBody ih =>
    obtain ⟨io₁, inside, twins₁⟩ := ihBody twins
    obtain ⟨io', after, twins'⟩ := ih twins₁
    exact ⟨io', .block inside after, twins'⟩

theorem Program.Runs.sound {p : Program} {a b : Setting} (h : Runs p a b) (sound : a.streams.Sound) :
    b.streams.Sound := by
  obtain ⟨_, _, twins⟩ := h.twins ⟨sound, sound, rfl, rfl, rfl⟩
  exact twins.sound

namespace Execution

variable {p q : Program} {m : Machine} {io : Streams}

/-- Both executions have halted, with the same tape and the same bytes written and read. -/
structure SameBytesEnd (r r' : Outcome State) : Prop where
  halted : ∃ s s' io io', r = .halted s io ∧ r' = .halted s' io'
  tape : r.state.machine.tape = r'.state.machine.tape
  bytes : r.streams.SameBytes r'.streams

/-- On streams without faults, an execution that ends has run its program and leaves its streams, flushed. -/
theorem runs_of_ends {r : Outcome State} (sound : io.Sound) (ends : process.Ends (start p m) io r) :
    ∃ io₁, p.Runs ⟨m.tape, io⟩ ⟨r.state.machine.tape, io₁⟩ ∧ io₁.Twins r.streams ∧ ∃ s io', r = .halted s io' := by
  obtain ⟨t, c, io₁, io', rfl, runs, flushed, -⟩ := ends_of_sound sound ends
  have twins : io₁.Twins io' := (runs.sound sound : io₁.Sound).twins_flush flushed
  exact ⟨io₁, runs, twins, _, _, rfl⟩

theorem ends_of_runs {b : Setting} (sound : io.Sound) (runs : p.Runs ⟨m.tape, io⟩ b) :
    ∃ r, process.Ends (start p m) io r := by
  obtain ⟨c, ends⟩ := halts_iff_runs.2 ⟨b.streams, runs, (runs.sound sound : b.streams.Sound).flush_eq⟩
  exact ⟨_, ends⟩

/-- Two executions, the second one on what the first one leaves, end as the runs of the two programs do. -/
theorem runs_of_ends_ends {r₁ r₂ : Outcome State} (sound : io.Sound) (first : process.Ends (start p m) io r₁)
    (second : process.Ends (start q r₁.state.machine) r₁.streams r₂) :
    ∃ io₂, (p ++ q).Runs ⟨m.tape, io⟩ ⟨r₂.state.machine.tape, io₂⟩ ∧ io₂.Twins r₂.streams ∧
      ∃ s io', r₂ = .halted s io' := by
  obtain ⟨io₁, runs, twins, -⟩ := runs_of_ends sound first
  obtain ⟨io₂, runs', twins', halted⟩ := runs_of_ends twins.sound' second
  -- the second run can do without the flush between the two
  obtain ⟨io₃, runs₃, twins₃⟩ := runs'.twins twins.symm
  refine ⟨io₃, runs.append runs₃, ⟨twins₃.sound', twins'.sound', ?_⟩, halted⟩
  have same := twins₃.same
  have same' := twins'.same
  exact ⟨same.written.symm.trans same'.written, same.input.symm.trans same'.input,
    same.delivered.symm.trans same'.delivered⟩

theorem ends_ends_of_runs {b : Setting} (sound : io.Sound) (runs : (p ++ q).Runs ⟨m.tape, io⟩ b) :
    ∃ r₁ r₂, process.Ends (start p m) io r₁ ∧ process.Ends (start q r₁.state.machine) r₁.streams r₂ := by
  obtain ⟨c, first, second⟩ := runs_append_iff.1 runs
  obtain ⟨r₁, ends⟩ := ends_of_runs sound first
  obtain ⟨io₁, runs₁, twins, -⟩ := runs_of_ends sound ends
  cases first.unique runs₁
  obtain ⟨io₂, runs₂, -⟩ := second.twins twins
  obtain ⟨r₂, ends'⟩ := ends_of_runs (m := r₁.state.machine) twins.sound' runs₂
  exact ⟨r₁, r₂, ends, ends'⟩

end Execution

/-- Two texts that can be translated can be translated as one text, and its execution ends if and only if that of the
first does and then that of the second, on what the first leaves; and both leave the same. -/
theorem concatenation_is_sequencing {o : Optimizations} {s₁ s₂ : List UInt8} {p₁ p₂ : Program}
    (h₁ : Program.ofSource o s₁ = .ok p₁) (h₂ : Program.ofSource o s₂ = .ok p₂) :
    ∃ p, Program.ofSource o (s₁ ++ s₂) = .ok p ∧ ∀ (m : Machine) (input : List UInt8),
      ((∃ r, process.Ends (start p m) (.ofInput input) r) ↔
        ∃ r₁ r₂, process.Ends (start p₁ m) (.ofInput input) r₁ ∧
          process.Ends (start p₂ r₁.state.machine) r₁.streams r₂) ∧
      ∀ r r₁ r₂, process.Ends (start p m) (.ofInput input) r → process.Ends (start p₁ m) (.ofInput input) r₁ →
        process.Ends (start p₂ r₁.state.machine) r₁.streams r₂ → SameBytesEnd r r₂ := by
  obtain ⟨p, translated, alike⟩ := ofSource_append h₁ h₂
  refine ⟨p, translated, fun m input => ?_⟩
  have sound := Streams.ofInput_sound input
  have agree := alike ⟨m.tape, .ofInput input⟩
  refine ⟨⟨?_, ?_⟩, ?_⟩
  · rintro ⟨r, ends⟩
    obtain ⟨io₁, runs, -⟩ := runs_of_ends sound ends
    exact ends_ends_of_runs sound ((agree _).1 runs)
  · rintro ⟨r₁, r₂, ends₁, ends₂⟩
    obtain ⟨io₂, runs, -⟩ := runs_of_ends_ends sound ends₁ ends₂
    exact ends_of_runs sound ((agree _).2 runs)
  · intro r r₁ r₂ ends ends₁ ends₂
    obtain ⟨io₁, runs, twins, s, io, halted⟩ := runs_of_ends sound ends
    obtain ⟨io₂, runs', twins', s', io', halted'⟩ := runs_of_ends_ends sound ends₁ ends₂
    obtain ⟨tape, rfl⟩ := Setting.mk.inj (((agree _).1 runs).unique runs')
    have same := twins.same
    have same' := twins'.same
    exact ⟨⟨s, s', io, io', halted, halted'⟩, tape, same.written.symm.trans same'.written,
      same.input.symm.trans same'.input, same.delivered.symm.trans same'.delivered⟩

/-- After `>[-<->]<`, the text `<.` lengthens the run at the end of the fragment, which is then no longer replaced as
a whole. -/
theorem concatenation_lengthens_run :
    Program.ofSource .all (Idiom.spelling Idiom.subtraction) = .ok [.block Idiom.subtractionProgram] ∧
      Program.ofSource .all (Idiom.spelling [.left, .put]) = .ok [.move (-1), .print] ∧
      ∃ p, Program.ofSource .all (Idiom.spelling Idiom.subtraction ++ Idiom.spelling [.left, .put]) = .ok p ∧
        ∀ (m : Machine) (input : List UInt8),
          ((∃ r, process.Ends (start p m) (.ofInput input) r) ↔
            ∃ r₁ r₂, process.Ends (start [.block Idiom.subtractionProgram] m) (.ofInput input) r₁ ∧
              process.Ends (start [.move (-1), .print] r₁.state.machine) r₁.streams r₂) ∧
          ∀ r r₁ r₂, process.Ends (start p m) (.ofInput input) r →
            process.Ends (start [.block Idiom.subtractionProgram] m) (.ofInput input) r₁ →
            process.Ends (start [.move (-1), .print] r₁.state.machine) r₁.streams r₂ → SameBytesEnd r r₂ :=
  ⟨rfl, rfl, concatenation_is_sequencing rfl rfl⟩

end TapeLang
