import TapeLang.Execution
import TapeLang.Proofs.Brackets
import TapeLang.Proofs.Outlines
import TapeLang.Proofs.Runs
import TapeLang.Proofs.Straight
import TapeLang.Reference

/-!
# The literal program is the language

The execution of the literal program and the machine that goes from symbol to symbol do the same
(`literal_follows_language`).  `Stands code place todo` says which instructions are left at a place of the text: those
of the rest of the body the place is in, then the loop around it, and so on outwards.  A token is one instruction but
as many symbols as it counts, and a `]` that goes back takes one step more than the loop.
-/

namespace TapeLang

open Program LoopSummary

namespace Outline

/-- The symbols that the outline stands for. -/
def symbols (x : Outline) : List Symbol := x.tokens.flatMap Token.spell

theorem symbols_token (k : Token) (rest : Outline) : (token k rest).symbols = k.spell ++ rest.symbols := rfl

theorem symbols_loop {opening closing : Token} {body rest : Outline} (h : (loop opening closing body rest).Regular) :
    (loop opening closing body rest).symbols = .opening :: (body.symbols ++ .closing :: rest.symbols) := by
  have ho : opening.spell = [.opening] := by
    have := Token.spell_of_not_isRun (h.canonical.valid opening (by simp [tokens])) (by rw [h.formed.1]; rfl)
    rw [this, h.formed.1]
  have hc : closing.spell = [.closing] := by
    have := Token.spell_of_not_isRun (h.canonical.valid closing (by simp [tokens])) (by rw [h.formed.2.1]; rfl)
    rw [this, h.formed.2.1]
  simp [symbols, tokens, ho, hc]

end Outline

namespace Reference

/-! ### Jumps -/

theorem reach_other {first last s : Symbol} (hf : s ≠ first) (hl : s ≠ last) (depth : Nat) (l : List Symbol) :
    reach first last depth (s :: l) = reach first last depth l + 1 := by
  rw [reach.eq_def]
  simp only [if_neg hl, if_neg hf]

theorem reach_first {first last : Symbol} (h : first ≠ last) (depth : Nat) (l : List Symbol) :
    reach first last depth (first :: l) = reach first last (depth + 1) l + 1 := by
  rw [reach.eq_def]
  simp only [if_neg h, if_true]

theorem reach_inner (first last : Symbol) (depth : Nat) (l : List Symbol) :
    reach first last (depth + 1) (last :: l) = reach first last depth l + 1 := by
  rw [reach, if_pos rfl]

theorem reach_last (first last : Symbol) (l : List Symbol) : reach first last 0 (last :: l) = 1 := by
  rw [reach, if_pos rfl]

/-- Symbols other than brackets are passed over. -/
theorem reach_replicate {first last s : Symbol} (hf : s ≠ first) (hl : s ≠ last) (depth n : Nat) (l : List Symbol) :
    reach first last depth (List.replicate n s ++ l) = n + reach first last depth l := by
  induction n with
  | zero => simp
  | succ n ih =>
    rw [List.replicate_succ, List.cons_append, reach_other hf hl, ih]
    omega

/-- Looking for a `]`, a whole outline is passed over. -/
theorem reach_symbols {x : Outline} (h : x.Regular) (depth : Nat) (l : List Symbol) :
    reach .opening .closing depth (x.symbols ++ l) = x.symbols.length + reach .opening .closing depth l := by
  induction x generalizing depth l with
  | done => exact (Nat.zero_add _).symm
  | token k rest ih =>
    obtain ⟨ho, hc, -⟩ := h.formed
    rw [Outline.symbols_token, List.append_assoc, Token.spell, reach_replicate ho hc, ih h.token.2,
      List.length_append,
      List.length_replicate, Nat.add_assoc]
  | loop opening closing body rest ihBody ihRest =>
    rw [Outline.symbols_loop h]
    simp only [List.cons_append, List.append_assoc]
    rw [reach_first (by decide), ihBody h.body, reach_inner, ihRest h.rest]
    simp only [List.length_cons, List.length_append]
    omega

/-- Looking back for a `[`, a whole outline is passed over. -/
theorem reach_reverse_symbols {x : Outline} (h : x.Regular) (depth : Nat) (l : List Symbol) :
    reach .closing .opening depth (x.symbols.reverse ++ l)
      = x.symbols.length + reach .closing .opening depth l := by
  induction x generalizing depth l with
  | done => exact (Nat.zero_add _).symm
  | token k rest ih =>
    obtain ⟨ho, hc, -⟩ := h.formed
    rw [Outline.symbols_token, List.reverse_append, List.append_assoc, ih h.token.2, Token.spell,
      List.reverse_replicate,
      reach_replicate hc ho, List.length_append, List.length_replicate]
    omega
  | loop opening closing body rest ihBody ihRest =>
    rw [Outline.symbols_loop h]
    simp only [List.reverse_cons, List.reverse_append, List.append_assoc, List.singleton_append]
    rw [ihRest h.rest, List.cons_append, reach_first (by decide), ihBody h.body, reach_inner]
    simp only [List.length_cons, List.length_append]
    omega

variable {code before after : List Symbol} {body : Outline}

theorem pastClose_eq (h : body.Regular) (e : code = before ++ .opening :: (body.symbols ++ .closing :: after)) :
    pastClose code before.length = before.length + body.symbols.length + 2 := by
  have drop : code.drop (before.length + 1) = body.symbols ++ .closing :: after := by
    rw [e, ← List.drop_drop, List.drop_left]
    rfl
  rw [pastClose, drop, reach_symbols h, reach_last]
  omega

theorem backToOpen_eq (h : body.Regular) (e : code = before ++ .opening :: (body.symbols ++ .closing :: after)) :
    backToOpen code (before.length + body.symbols.length + 1) = before.length := by
  have take : code.take (before.length + body.symbols.length + 1) = before ++ .opening :: body.symbols := by
    rw [e]
    have : before ++ .opening :: (body.symbols ++ .closing :: after)
        = (before ++ .opening :: body.symbols) ++ .closing :: after := by simp
    rw [this, List.take_left' (by simp; omega)]
  rw [backToOpen, take, List.reverse_append, List.reverse_cons, List.append_assoc, reach_reverse_symbols h,
    List.singleton_append, reach_last]
  omega

/-! ### Which instructions are left at a place -/

/-- At this place of the text these instructions are left. -/
inductive Stands (code : List Symbol) : Nat → Program → Prop
  | done : Stands code code.length []
  | outline {before after : List Symbol} {x : Outline} {todo : Program} (text : code = before ++ (x.symbols ++ after))
      (regular : x.Regular) (later : Stands code (before.length + x.symbols.length) todo) :
      Stands code before.length (x.literal ++ todo)
  | closing {before after : List Symbol} {body : Outline} {todo : Program}
      (text : code = before ++ .opening :: (body.symbols ++ .closing :: after)) (regular : body.Regular)
      (later : Stands code (before.length + body.symbols.length + 2) todo) :
      Stands code (before.length + body.symbols.length + 1) (.loop body.literal :: todo)

theorem Stands.at {before after : List Symbol} {x : Outline} {todo : Program} {place : Nat}
    (text : code = before ++ (x.symbols ++ after)) (regular : x.Regular) (here : before.length = place)
    (later : Stands code (place + x.symbols.length) todo) : Stands code place (x.literal ++ todo) := by
  subst here
  exact .outline text regular later

/-- Behind a `[` the body is left and then the loop. -/
theorem Stands.inside {before after : List Symbol} {body : Outline} {todo : Program}
    (text : code = before ++ .opening :: (body.symbols ++ .closing :: after)) (regular : body.Regular)
    (later : Stands code (before.length + body.symbols.length + 2) todo) :
    Stands code (before.length + 1) (body.literal ++ .loop body.literal :: todo) := by
  have text' : code = (before ++ [Symbol.opening]) ++ (body.symbols ++ .closing :: after) := by
    rw [text]
    simp
  refine .at text' regular (by simp) ?_
  rw [Nat.add_right_comm]
  exact .closing text regular later

/-- The execution is as far as the machine that goes from symbol to symbol, on the same tape. -/
inductive Follows (code : List Symbol) : Execution.State → State → Prop
  | running {place : Nat} {todo : Program} {t : Tape} {c : Counters} (stands : Stands code place todo) :
      Follows code ⟨.running todo, ⟨t, c⟩⟩ ⟨.at_ place, t⟩
  | awaiting {place : Nat} {todo : Program} {t : Tape} {c : Counters} (stands : Stands code place todo) :
      Follows code ⟨.awaiting todo, ⟨t, c⟩⟩ ⟨.awaiting place, t⟩
  | finished {t : Tape} {c : Counters} : Follows code ⟨.finished, ⟨t, c⟩⟩ ⟨.finished, t⟩

/-- The tapes are the same. -/
def SameTape (s : Execution.State) (s' : State) : Prop := s.machine.tape = s'.tape

theorem getElem?_place {s : Symbol} {rest : List Symbol} (e : code = before ++ s :: rest) :
    code[before.length]? = some s := by
  rw [e]
  simp

/-- A symbol that is no request and no jump is obeyed in silence. -/
theorem quiet_symbol {s : Symbol} {place : Nat} {t : Tape} (e : code[place]? = some s) (hp : s ≠ .put)
    (hg : s ≠ .get) : (process code).Quiet 1 ⟨.at_ place, t⟩ (obey code place t s) := by
  have silent : (process code).request ⟨.at_ place, t⟩ = .silent := by
    simp only [process, request, e]
  have next : (process code).resume ⟨.at_ place, t⟩ none = obey code place t s := by
    simp only [process, resume, e]
  rw [← next]
  exact .one silent

end Reference

/-! ### Runs of one symbol -/

/-- What a run of moves or adds does to the tape. -/
def Symbol.repeated : Symbol → Nat → Tape → Tape
  | .right, n, t => t.move n
  | .left, n, t => t.move (-n)
  | .inc, n, t => t.add 0 (UInt8.ofNat n)
  | .dec, n, t => t.add 0 (-UInt8.ofNat n)
  | _, _, t => t

theorem Symbol.repeated_succ (s : Symbol) (n : Nat) (t : Tape) :
    s.repeated n (s.repeated 1 t) = s.repeated (n + 1) t := by
  cases s with
  | right =>
    simp only [repeated]
    rw [Tape.move_move_of_same_way (by omega), Int.add_comm]
    rfl
  | left =>
    simp only [repeated]
    rw [Tape.move_move_of_same_way (by omega)]
    congr 1
    omega
  | inc | dec =>
    simp only [repeated]
    rw [Tape.add_add, UInt8.ofNat_add]
    congr 1
    grind
  | _ => rfl

theorem effect_instruction {k : Token} (run : k.symbol.isRun = true) (small : k.count ≤ maxRun) :
    k.instruction.effect? = some (k.symbol.repeated k.count) := by
  obtain ⟨there, back⟩ := toInt_count small
  rcases k with ⟨symbol, count, start, position⟩
  cases symbol with
  | right => exact congrArg some (funext fun t => congrArg t.move there)
  | left => exact congrArg some (funext fun t => congrArg t.move back)
  | inc =>
    have e : (Int8.ofNat count).toUInt8 = UInt8.ofNat count := Int8.toUInt8_ofNat' ..
    exact congrArg some (funext fun t => congrArg (t.add 0) e)
  | dec =>
    have e : (-Int8.ofNat count).toUInt8 = -UInt8.ofNat count := by
      rw [← Int8.toUInt8_ofNat']
      rfl
    exact congrArg some (funext fun t => congrArg (t.add 0) e)
  | _ => cases run

namespace Reference

variable {code before after : List Symbol} {t : Tape}

theorem obey_run {s : Symbol} (run : s.isRun = true) (place : Nat) :
    obey code place t s = ⟨.at_ (place + 1), s.repeated 1 t⟩ := by
  cases s with
  | right | left => rfl
  | inc =>
    simp only [obey, Symbol.repeated, Tape.add_zero_eq_setCurrent]
    rfl
  | dec =>
    simp only [obey, Symbol.repeated, Tape.add_zero_eq_setCurrent]
    rw [UInt8.sub_eq_add_neg]
    rfl
  | _ => cases run

/-- A run is gone through symbol by symbol. -/
theorem quiet_run {s : Symbol} (run : s.isRun = true) {n : Nat}
    (text : code = before ++ (List.replicate n s ++ after)) :
    (process code).Quiet n ⟨.at_ before.length, t⟩ ⟨.at_ (before.length + n), s.repeated n t⟩ := by
  induction n generalizing before t with
  | zero =>
    have nothing : s.repeated 0 t = t := by
      cases s with
      | right | left => exact t.move_zero
      | inc | dec => exact t.add_zero 0
      | _ => rfl
    rw [nothing]
    exact .refl
  | succ n ih =>
    rw [List.replicate_succ, List.cons_append] at text
    have first : (process code).Quiet 1 ⟨.at_ before.length, t⟩ ⟨.at_ (before.length + 1), s.repeated 1 t⟩ := by
      rw [← obey_run run]
      apply quiet_symbol (getElem?_place text)
      · rintro rfl
        cases run
      · rintro rfl
        cases run
    have later := @ih (before ++ [s]) (s.repeated 1 t) (by rw [text]; simp)
    rw [Symbol.repeated_succ, List.length_append, List.length_singleton] at later
    have both := first.trans later
    rw [Nat.add_comm 1 n, Nat.add_assoc, Nat.add_comm 1 n] at both
    exact both

/-! ### Matching the execution -/

/-- At a token. -/
theorem matched_token {k : Token} {rest : Outline} {todo : Program} {c : Counters}
    (text : code = before ++ ((Outline.token k rest).symbols ++ after)) (regular : (Outline.token k rest).Regular)
    (later : Stands code (before.length + (Outline.token k rest).symbols.length) todo) :
    Process.Matched Execution.process (process code) (Follows code) SameTape
      ⟨.running ((Outline.token k rest).literal ++ todo), ⟨t, c⟩⟩ ⟨.at_ before.length, t⟩ := by
  obtain ⟨valid, regular'⟩ := regular.token
  rw [Outline.symbols_token, List.append_assoc] at text
  -- behind the token the rest of the outline is left
  have behind : Stands code (before.length + k.count) (rest.literal ++ todo) := by
    have text' : code = (before ++ k.spell) ++ (rest.symbols ++ after) := by
      rw [text, List.append_assoc]
    refine .at text' regular' (by simp [Token.spell]) ?_
    rw [Outline.symbols_token, List.length_append, Token.spell, List.length_replicate, ← Nat.add_assoc] at later
    exact later
  by_cases run : k.symbol.isRun = true
  · obtain ⟨c', first⟩ := Execution.quiet_plain (effect_instruction run valid.small) (rest.literal ++ todo) ⟨t, c⟩
    have second := quiet_run (t := t) run text
    exact .quiet first second Nat.one_pos valid.pos (.running behind)
  · have single : k.count = 1 := valid.single (by simpa using run)
    rw [single] at behind
    rw [Token.spell, single] at text
    have here := getElem?_place text
    rcases k with ⟨symbol, count, start, position⟩
    cases symbol with
    | put =>
      have second : (process code).request ⟨.at_ before.length, t⟩ = .write t.current := by
        simp only [process, request, here]
      refine .ask .refl .refl second.symm (by intro h; cases h) rfl fun _ answer => ?_
      have next : (process code).resume ⟨.at_ before.length, t⟩ answer = ⟨.at_ (before.length + 1), t⟩ := by
        simp only [process, resume, here, obey]
      rw [next]
      exact .running behind
    | get =>
      have second : (process code).request ⟨.at_ before.length, t⟩ = .flush := by
        simp only [process, request, here]
      refine .ask .refl .refl second.symm (by intro h; cases h) rfl fun _ answer => ?_
      have next : (process code).resume ⟨.at_ before.length, t⟩ answer = ⟨.awaiting (before.length + 1), t⟩ := by
        simp only [process, resume, here, obey]
      rw [next]
      exact .awaiting behind
    | opening => exact absurd rfl regular.formed.1
    | closing => exact absurd rfl regular.formed.2.1
    | _ => exact absurd rfl run

/-- At a `[`. -/
theorem matched_opening {opening closing : Token} {body rest : Outline} {todo : Program} {c : Counters}
    (text : code = before ++ ((Outline.loop opening closing body rest).symbols ++ after))
    (regular : (Outline.loop opening closing body rest).Regular)
    (later : Stands code (before.length + (Outline.loop opening closing body rest).symbols.length) todo) :
    Process.Matched Execution.process (process code) (Follows code) SameTape
      ⟨.running ((Outline.loop opening closing body rest).literal ++ todo), ⟨t, c⟩⟩ ⟨.at_ before.length, t⟩ := by
  rw [Outline.symbols_loop regular] at text later
  have text : code = before ++ .opening :: (body.symbols ++ .closing :: (rest.symbols ++ after)) := by
    rw [text]
    simp
  -- behind the loop the rest of the outline is left
  have behind : Stands code (before.length + body.symbols.length + 2) (rest.literal ++ todo) := by
    have text' : code
        = (before ++ Symbol.opening :: (body.symbols ++ [Symbol.closing])) ++ (rest.symbols ++ after) := by
      rw [text]
      simp
    refine .at text' regular.rest (by simp; omega) ?_
    have e : before.length + (Symbol.opening :: (body.symbols ++ Symbol.closing :: rest.symbols)).length
        = before.length + body.symbols.length + 2 + rest.symbols.length := by simp; omega
    rw [← e]
    exact later
  have here := getElem?_place text
  by_cases zero : t.current = 0
  · have first := Execution.quiet_leave (m := ⟨t, c⟩) body.literal (rest.literal ++ todo) zero
    have second := quiet_symbol (t := t) here nofun nofun
    rw [obey, if_pos zero, pastClose_eq regular.body text] at second
    exact .quiet first second Nat.one_pos Nat.one_pos (.running behind)
  · obtain ⟨c', first⟩ := Execution.quiet_pass (m := ⟨t, c⟩) body.literal (rest.literal ++ todo) zero
    have second := quiet_symbol (t := t) here nofun nofun
    rw [obey, if_neg zero] at second
    exact .quiet first second Nat.one_pos Nat.one_pos (.running (.inside text regular.body behind))

/-- At a `]`. -/
theorem matched_closing {body : Outline} {todo : Program} {c : Counters}
    (text : code = before ++ .opening :: (body.symbols ++ .closing :: after)) (regular : body.Regular)
    (later : Stands code (before.length + body.symbols.length + 2) todo) :
    Process.Matched Execution.process (process code) (Follows code) SameTape
      ⟨.running (.loop body.literal :: todo), ⟨t, c⟩⟩ ⟨.at_ (before.length + body.symbols.length + 1), t⟩ := by
  have here : code[before.length + body.symbols.length + 1]? = some .closing := by
    have e : (before ++ Symbol.opening :: body.symbols).length = before.length + body.symbols.length + 1 := by
      simp
      omega
    have text' : code = (before ++ Symbol.opening :: body.symbols) ++ .closing :: after := by
      rw [text]
      simp
    rw [← e]
    exact getElem?_place text'
  have second := quiet_symbol (t := t) here nofun nofun
  by_cases zero : t.current = 0
  · have first := Execution.quiet_leave (m := ⟨t, c⟩) body.literal todo zero
    rw [obey, if_pos zero] at second
    exact .quiet first second Nat.one_pos Nat.one_pos (.running later)
  · obtain ⟨c', first⟩ := Execution.quiet_pass (m := ⟨t, c⟩) body.literal todo zero
    rw [obey, if_neg zero, backToOpen_eq regular text] at second
    -- the machine goes back to the `[` and has to look at the cell once more
    have again := quiet_symbol (t := t) (getElem?_place text) nofun nofun
    rw [obey, if_neg zero] at again
    exact .quiet first (second.trans again) Nat.one_pos Nat.two_pos (.running (.inside text regular later))

/-- Wherever the execution and the machine stand, they go on together. -/
theorem matched_stands {place : Nat} {todo : Program} {c : Counters} (h : Stands code place todo) :
    Process.Matched Execution.process (process code) (Follows code) SameTape ⟨.running todo, ⟨t, c⟩⟩
      ⟨.at_ place, t⟩ := by
  induction h with
  | done =>
    have here : code[code.length]? = none := by simp
    have second : (process code).request ⟨.at_ code.length, t⟩ = .flush := by
      simp only [process, request, here]
    refine .ask .refl .refl second.symm nofun rfl fun _ answer => ?_
    have next : (process code).resume ⟨.at_ code.length, t⟩ answer = ⟨.finished, t⟩ := by
      simp only [process, resume, here]
    rw [next]
    exact .finished
  | @outline before after x todo text regular later ih =>
    cases x with
    | done => exact ih
    | token k rest => exact matched_token text regular later
    | loop opening closing body rest => exact matched_opening text regular later
  | closing text regular later _ => exact matched_closing text regular later

theorem bisimulation (code : List Symbol) :
    Process.Bisimulation Execution.process (process code) (Follows code) SameTape := by
  intro s s' follows
  cases follows with
  | running stands => exact matched_stands stands
  | awaiting stands =>
    refine .ask .refl .refl rfl nofun rfl fun _ answer => ?_
    cases answer with
    | none => exact .running stands
    | some byte => exact .running stands
  | finished => exact .ask .refl .refl rfl nofun rfl fun halt => absurd rfl halt

end Reference

open Reference

/-- An accepted text can be translated literally, and on all streams the execution of its literal program and the
machine that goes from symbol to symbol both end or neither does; at the end they have the same tape and the same
streams. -/
theorem literal_follows_language {source : List UInt8} {scan : Scan} (accepted : Scan.ofSource source = .ok scan)
    (m : Machine) (io : Streams) :
    ∃ p, Program.ofSource .none source = .ok p ∧
      ((∃ r, Execution.process.Ends (Execution.start p m) io r) ↔
        ∃ r, (Reference.ofSource source).Ends (Reference.start m.tape) io r) ∧
      ∀ r r', Execution.process.Ends (Execution.start p m) io r →
        (Reference.ofSource source).Ends (Reference.start m.tape) io r' →
        r.streams = r'.streams ∧ r.fault? = r'.fault? ∧ r.state.machine.tape = r'.state.tape := by
  have brackets := Brackets.scan_eq_ok_iff.1 ⟨scan, accepted⟩
  have literal : Program.ofSource .none source = .ok (Outline.ofSource source).literal :=
    Program.ofSource_eq_ok_iff.2 ⟨brackets, Outline.lower_none _⟩
  have text : (marks source).map Mark.symbol = (Outline.ofSource source).symbols := by
    rw [Outline.symbols, Outline.tokens_ofSource brackets, spell_tokensOf]
  have start : Follows ((marks source).map Mark.symbol) (Execution.start (Outline.ofSource source).literal m)
      (Reference.start m.tape) := by
    rw [text]
    have whole : (Outline.ofSource source).symbols = [] ++ ((Outline.ofSource source).symbols ++ []) := by simp
    have stands : Stands (Outline.ofSource source).symbols 0 ((Outline.ofSource source).literal ++ []) := by
      refine .at whole (Outline.regular_ofSource brackets) rfl ?_
      rw [Nat.zero_add]
      exact .done
    rw [List.append_nil] at stands
    exact .running stands
  have both := bisimulation ((marks source).map Mark.symbol)
  refine ⟨_, literal, both.ends_iff start, ?_⟩
  intro r r' ends ends'
  cases both.corresponds start ends ends' with
  | halted alike => exact ⟨rfl, rfl, alike⟩
  | failed alike => exact ⟨rfl, rfl, alike⟩

/-- At the right end of the tape, where the move of `,[>.,]` stops, on streams with two bytes. -/
theorem echo_follows_language :
    Scan.ofSource (Idiom.spelling [.get, .opening, .right, .put, .get, .closing])
        = .ok (Scan.ofMarks (marks (Idiom.spelling [.get, .opening, .right, .put, .get, .closing]))) ∧
      ∃ p, Program.ofSource .none (Idiom.spelling [.get, .opening, .right, .put, .get, .closing]) = .ok p ∧
        ((∃ r, Execution.process.Ends (Execution.start p ⟨Tape.blank.moveTo tapeLength, .zero⟩) (.ofInput [7, 0]) r) ↔
          ∃ r, (Reference.ofSource (Idiom.spelling [.get, .opening, .right, .put, .get, .closing])).Ends
            (Reference.start (Tape.blank.moveTo tapeLength)) (.ofInput [7, 0]) r) ∧
        ∀ r r',
          Execution.process.Ends (Execution.start p ⟨Tape.blank.moveTo tapeLength, .zero⟩) (.ofInput [7, 0]) r →
          (Reference.ofSource (Idiom.spelling [.get, .opening, .right, .put, .get, .closing])).Ends
            (Reference.start (Tape.blank.moveTo tapeLength)) (.ofInput [7, 0]) r' →
          r.streams = r'.streams ∧ r.fault? = r'.fault? ∧ r.state.machine.tape = r'.state.tape :=
  ⟨rfl, literal_follows_language rfl _ _⟩

end TapeLang
