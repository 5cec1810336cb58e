import TapeLang.Proofs.Language
import TapeLang.Proofs.Places

/-!
# Translating by token indices

`Scan.walk` translates a scan without an outline: it goes from index to index, jumps from a `[` to its partner, and
cuts texts and bodies out of the scan.  All of that could go wrong, which is a `Slip`, and it could go on forever.  On
the scan of an accepted text it does not: with one step for each token it gives what lowering the outline gives
(`walk_eq_lower`).

That rests on the places of the tokens (`Scan.Placed`): a token starts where the text of the tokens before it ends, so
indices and offsets of the text can be exchanged for each other.
-/

namespace TapeLang

open TapeLang.Symbol

/-- What a walk over the tokens of a scan could stumble over. -/
inductive Slip
  /-- There is no token with this index. -/
  | noToken (i : Nat)
  /-- There is no text between the tokens with these indices. -/
  | noText (i j : Nat)
  /-- The `[` at this index has no partner. -/
  | noPartner (i : Nat)
  /-- A `]` is met that no `[` has led over. -/
  | strayClose (i : Nat)
  /-- The steps allowed are used up. -/
  | endless
deriving DecidableEq, Repr

/-- Why a walk gives no program. -/
inductive Stop
  | rejected (error : SourceError)
  | slipped (slip : Slip)
deriving DecidableEq, Repr

/-! ### Looking for a key -/

section

variable {keys : List Nat} {key k l low high i j : Nat}

theorem lt_of_pairwise_lt (ascending : keys.Pairwise (· < ·)) (first : keys[i]? = some k) (second : keys[j]? = some l)
    (lt : i < j) : k < l := by
  obtain ⟨_, rfl⟩ := List.getElem?_eq_some_iff.1 first
  obtain ⟨_, rfl⟩ := List.getElem?_eq_some_iff.1 second
  exact List.pairwise_iff_getElem.1 ascending i j _ _ lt

theorem le_of_pairwise_lt (ascending : keys.Pairwise (· < ·)) (first : keys[i]? = some k) (second : keys[j]? = some l)
    (le : i ≤ j) : k ≤ l := by
  rcases Nat.lt_or_eq_of_le le with lt | rfl
  · exact Nat.le_of_lt (lt_of_pairwise_lt ascending first second lt)
  · exact Nat.le_of_eq (Option.some.inj (first.symm.trans second))

/-- The search finds a key wherever it stands in the stretch, and nothing else. -/
theorem bisect_eq_some_iff (ascending : keys.Pairwise (· < ·)) (bound : high ≤ keys.length) :
    bisect keys key low high = some i ↔ low ≤ i ∧ i < high ∧ keys[i]? = some key := by
  fun_induction bisect keys key low high with
  | case1 low high lt outside =>
    -- the middle of the stretch is an index
    rw [List.getElem?_eq_none_iff] at outside
    omega
  | case2 low high lt middle here below ih =>
    -- the key stands behind the middle, or nowhere
    have right (found : keys[i]? = some key) : low + (high - low) / 2 < i := by
      by_contra left
      have := le_of_pairwise_lt ascending found here (by omega)
      omega
    rw [ih bound]
    constructor
    · rintro ⟨lower, upper, found⟩
      exact ⟨by omega, upper, found⟩
    · rintro ⟨-, upper, found⟩
      exact ⟨right found, upper, found⟩
  | case3 low high lt middle here notBelow above ih =>
    have left (found : keys[i]? = some key) : i < low + (high - low) / 2 := by
      by_contra right
      have := le_of_pairwise_lt ascending here found (by omega)
      omega
    rw [ih (by omega)]
    constructor
    · rintro ⟨lower, upper, found⟩
      exact ⟨lower, by omega, found⟩
    · rintro ⟨lower, -, found⟩
      exact ⟨lower, left found, found⟩
  | case4 low high lt middle here notBelow notAbove =>
    obtain rfl : middle = key := by omega
    constructor
    · rintro ⟨⟩
      exact ⟨by omega, by omega, here⟩
    · rintro ⟨-, -, found⟩
      -- ascending keys do not repeat
      rcases Nat.lt_trichotomy i (low + (high - low) / 2) with before | same | behind
      · exact absurd (lt_of_pairwise_lt ascending found here before) (Nat.lt_irrefl _)
      · rw [same]
      · exact absurd (lt_of_pairwise_lt ascending here found behind) (Nat.lt_irrefl _)
  | case5 low high notLt =>
    constructor
    · rintro ⟨⟩
    · rintro ⟨lower, upper, -⟩
      omega

end

namespace Scan

/-- The text from token `i` up to token `j`, if both ends are ends of a part of the text. -/
def textBetween? (s : Scan) (i j : Nat) : Option (List UInt8) :=
  if s.offsetOf j ≤ s.text.length then s.slice? i j else none

/-- The tokens from index `i` up to `j`, if there are so many. -/
def tokensBetween? (s : Scan) (i j : Nat) : Option (List Token) :=
  if i ≤ j ∧ j ≤ s.tokens.length then some ((s.tokens.take j).drop i) else none

/-- The fragment of the catalogue that starts at token `i` and ends at a token before `stop`: the index behind it, and
what replaces it. -/
def sequenceAt (s : Scan) (o : Optimizations) (i stop : Nat) : Except Slip (Option (Nat × Instruction)) :=
  if o.idioms then
    match s.textBetween? i stop with
    | none => .error (.noText i stop)
    | some text =>
      .ok ((Idiom.ofSequence? text).bind fun found =>
        (s.tokenAt? (s.offsetOf i + found.1)).map fun next => (next, found.2))
  else .ok none

/-- What the catalogue says about the loop between the tokens `i` and `j`. -/
def idiomAt (s : Scan) (o : Optimizations) (i j : Nat) : Except Slip (Option ClosedForm) :=
  if o.idioms then
    match s.textBetween? (i + 1) j with
    | none => .error (.noText (i + 1) j)
    | some text => .ok (Idiom.ofLoopBody? text)
  else .ok none

/-- How the loop between the tokens `i` and `j` is lowered. -/
def verdictAt (s : Scan) (o : Optimizations) (i j : Nat) : Except Slip Outline.Verdict :=
  match s.idiomAt o i j with
  | .error slip => .error slip
  | .ok (some form) => .ok (.replaced (.closed form))
  | .ok none =>
    if o.closedForms then
      match s.tokensBetween? (i + 1) j with
      | none => .error (.noToken j)
      | some body => .ok (Outline.verdictOfSummary body)
    else .ok .kept

/-- Translates the tokens from index `i` up to `stop`, in at most so many steps. -/
def walk (s : Scan) (o : Optimizations) : Nat → Nat → Nat → Except Stop Program
  | 0, _, _ => .error (.slipped .endless)
  | budget + 1, i, stop =>
    if i < stop then
      match s.sequenceAt o i stop with
      | .error slip => .error (.slipped slip)
      | .ok (some (next, replacement)) => (s.walk o budget next stop).map (replacement :: ·)
      | .ok none =>
        match s.tokens[i]? with
        | none => .error (.slipped (.noToken i))
        | some t =>
          match t.symbol with
          | .closing => .error (.slipped (.strayClose i))
          | .opening =>
            match s.partner? i with
            | none => .error (.slipped (.noPartner i))
            | some close =>
              -- what is wrong inside the loop is met before what is wrong behind it
              let head : Except Stop Instruction :=
                match s.verdictAt o i close with
                | .error slip => .error (.slipped slip)
                | .ok (.replaced replacement) => .ok replacement
                | .ok (.rejected e) => .error (.rejected e)
                | .ok .kept => (s.walk o budget (i + 1) close).map .loop
              head.bind fun first => (s.walk o budget (close + 1) stop).map (first :: ·)
          | _ => (s.walk o budget (i + 1) stop).map (t.instruction :: ·)
    else .ok []

/-! ### Places of tokens -/

/-- The length of the text of some tokens. -/
def lengthOf (ts : List Token) : Nat := (ts.flatMap Token.spell).length

theorem lengthOf_append (ts us : List Token) : lengthOf (ts ++ us) = lengthOf ts + lengthOf us := by
  rw [lengthOf, List.flatMap_append, List.length_append]
  rfl

theorem lengthOf_cons (t : Token) (ts : List Token) : lengthOf (t :: ts) = t.count + lengthOf ts := by
  rw [lengthOf, List.flatMap_cons, List.length_append, Token.spell, List.length_replicate]
  rfl

/-- The tokens are valid, spell the text, and start where those before them end; the brackets have the partners that
counting gives them. -/
structure Placed (s : Scan) : Prop where
  valid : ∀ t ∈ s.tokens, t.Valid
  text : s.text = (s.tokens.flatMap Token.spell).map toByte
  start : ∀ before t after, s.tokens = before ++ t :: after → t.start = lengthOf before
  partner : ∀ i, s.partner? i = closer? s.tokens i

theorem start_tokensFrom (run : Token) {t : Token} {ms : List Mark} {before after : List Token}
    (h : tokensFrom run ms = before ++ t :: after) : t.start = run.start + lengthOf before := by
  induction ms generalizing run before with
  | nil =>
    cases before with
    | nil =>
      cases h
      rfl
    | cons k before =>
      have := congrArg List.length h
      simp [tokensFrom] at this
  | cons m ms ih =>
    unfold tokensFrom at h
    split at h
    · exact ih { run with count := run.count + 1 } h
    · cases before with
      | nil =>
        cases h
        rfl
      | cons k before =>
        obtain ⟨rfl, later⟩ := List.cons.inj h
        have e : t.start = run.stop + lengthOf before := ih ⟨m.symbol, 1, run.stop, m.position⟩ later
        rw [lengthOf_cons, e, Token.stop, Nat.add_assoc]

theorem placed_ofMarks (ms : List Mark) : (ofMarks ms).Placed := by
  refine ⟨(tokensOf_canonical ms).valid, ?_, ?_, partner?_ofMarks ms⟩
  · show _ = ((tokensOf ms).flatMap Token.spell).map toByte
    rw [spell_tokensOf, List.map_map]
    rfl
  · intro before t after h
    cases ms with
    | nil =>
      have := congrArg List.length h
      simp [ofMarks, tokensOf] at this
    | cons m ms =>
      have e := start_tokensFrom ⟨m.symbol, 1, 0, m.position⟩ h
      rw [e]
      exact Nat.zero_add _

variable {s : Scan} {before mid after : List Token}

theorem Placed.length_text (h : s.Placed) : s.text.length = lengthOf s.tokens := by
  rw [h.text, List.length_map]
  rfl

theorem Placed.offsetOf (h : s.Placed) (split : s.tokens = before ++ after) :
    s.offsetOf before.length = lengthOf before := by
  unfold Scan.offsetOf
  cases after with
  | nil =>
    rw [List.append_nil] at split
    have none : s.tokens[before.length]? = none := by simp [split]
    rw [none, h.length_text, split]
  | cons t after =>
    have here : s.tokens[before.length]? = some t := by simp [split]
    rw [here]
    exact h.start before t after split

/-- The text between two indices is the text of the tokens between them. -/
theorem Placed.textBetween? (h : s.Placed) (split : s.tokens = before ++ (mid ++ after)) :
    s.textBetween? before.length (before.length + mid.length) = some ((mid.flatMap Token.spell).map toByte) := by
  have left : s.offsetOf before.length = lengthOf before := h.offsetOf split
  have right : s.offsetOf (before.length + mid.length) = lengthOf before + lengthOf mid := by
    rw [← List.length_append, h.offsetOf (by rw [split, List.append_assoc]), lengthOf_append]
  have room : lengthOf before + lengthOf mid ≤ s.text.length := by
    rw [h.length_text, split, lengthOf_append, lengthOf_append]
    omega
  rw [Scan.textBetween?, slice?, left, right, if_pos room, if_pos (by omega), h.text, split]
  simp only [List.flatMap_append, List.map_append]
  congr 1
  rw [List.take_append, List.drop_append]
  simp [lengthOf]

theorem between_eq (split : s.tokens = before ++ (mid ++ after)) :
    (s.tokens.take (before.length + mid.length)).drop before.length = mid := by
  rw [split]
  simp [List.take_append]

/-! ### Offsets of tokens -/

theorem Placed.start_lt (h : s.Placed) (split : s.tokens = before ++ after) {t : Token} (ht : t ∈ before) :
    t.start < lengthOf before := by
  obtain ⟨b, a, rfl⟩ := List.append_of_mem ht
  have pos := (h.valid t (by simp [split])).pos
  rw [h.start b t (a ++ after) (by simp [split]), lengthOf_append, lengthOf_cons]
  omega

theorem Placed.le_start (h : s.Placed) (split : s.tokens = before ++ after) {t : Token} (ht : t ∈ after) :
    lengthOf before ≤ t.start := by
  obtain ⟨b, a, rfl⟩ := List.append_of_mem ht
  rw [h.start (before ++ b) t a (by simp [split]), lengthOf_append]
  omega

theorem Placed.pairwise_start (h : s.Placed) : (s.tokens.map Token.start).Pairwise (· < ·) := by
  rw [List.pairwise_map, List.pairwise_iff_getElem]
  intro i j hi hj lt
  have split : s.tokens = s.tokens.take j ++ s.tokens[j] :: s.tokens.drop (j + 1) := by
    rw [List.getElem_cons_drop, List.take_append_drop]
  rw [h.start _ _ _ split]
  exact h.start_lt split (List.mem_take_iff_getElem.2 ⟨i, by omega, rfl⟩)

/-- The token at a boundary of tokens is the next one. -/
theorem Placed.tokenAt? (h : s.Placed) (split : s.tokens = before ++ after) :
    s.tokenAt? (lengthOf before) = some before.length := by
  unfold Scan.tokenAt?
  cases after with
  | nil =>
    rw [List.append_nil] at split
    rw [if_pos (by rw [h.length_text, split]), split]
  | cons t after =>
    have pos := (h.valid t (by simp [split])).pos
    have notEnd : lengthOf before ≠ s.text.length := by
      rw [h.length_text, split, lengthOf_append, lengthOf_cons]
      omega
    have here : (s.tokens.map Token.start)[before.length]? = some (lengthOf before) := by
      rw [split, ← h.start before t after split]
      simp
    rw [if_neg notEnd, bisect_eq_some_iff h.pairwise_start (by simp)]
    exact ⟨Nat.zero_le _, by simp [split], here⟩

/-- Where tokens are split is known from the length of the text up to there. -/
theorem Placed.split_unique (h : s.Placed) {before' after' : List Token} (split : s.tokens = before ++ after)
    (split' : s.tokens = before' ++ after') (same : lengthOf before = lengthOf before') :
    before = before' ∧ after = after' := by
  have index := h.tokenAt? split
  rw [same, h.tokenAt? split', Option.some.injEq] at index
  exact List.append_inj (split.symm.trans split') index.symm

/-- No token starts inside another one. -/
theorem Placed.tokenAt?_inside (h : s.Placed) {t : Token} (split : s.tokens = before ++ t :: after) {offset : Nat}
    (lower : lengthOf before < offset) (upper : offset < lengthOf before + t.count) : s.tokenAt? offset = none := by
  have split' : s.tokens = (before ++ [t]) ++ after := by simp [split]
  have notEnd : offset ≠ s.text.length := by
    rw [h.length_text, split, lengthOf_append, lengthOf_cons]
    omega
  rw [Scan.tokenAt?, if_neg notEnd, Option.eq_none_iff_forall_ne_some]
  intro i found
  obtain ⟨-, -, here⟩ := (bisect_eq_some_iff h.pairwise_start (by simp)).1 found
  obtain ⟨k, hk, rfl⟩ := List.mem_map.1 (List.mem_of_getElem? here)
  rw [split', List.mem_append, List.mem_append, List.mem_singleton] at hk
  rcases hk with (hk | rfl) | hk
  · have := h.start_lt split hk
    omega
  · have := h.start before k after split
    omega
  · have := h.le_start split' hk
    rw [lengthOf_append, lengthOf_cons] at this
    omega

/-! ### Partners -/

theorem closingFrom_other {t : Token} (ho : t.symbol ≠ .opening) (hc : t.symbol ≠ .closing) (depth i : Nat)
    (later : List Token) : closingFrom depth i (t :: later) = closingFrom depth (i + 1) later := by
  conv_lhs => rw [closingFrom.eq_def]
  simp only

/-- Looking for a `]`, a whole outline is passed over. -/
theorem closingFrom_tokens {x : Outline} (formed : x.Formed) (depth i : Nat) (later : List Token) :
    closingFrom depth i (x.tokens ++ later) = closingFrom depth (i + x.tokens.length) later := by
  induction x generalizing depth i later with
  | done => rfl
  | token t rest ih =>
    obtain ⟨ho, hc, formed⟩ := formed
    rw [Outline.tokens, List.cons_append, closingFrom_other ho hc, ih formed, List.length_cons, Nat.add_right_comm,
      Nat.add_assoc]
  | loop opening closing body rest ihBody ihRest =>
    obtain ⟨ho, hc, formedBody, formedRest⟩ := formed
    have e : (Outline.loop opening closing body rest).tokens ++ later
        = opening :: (body.tokens ++ closing :: (rest.tokens ++ later)) := by
      simp [Outline.tokens]
    have first : closingFrom depth i (opening :: (body.tokens ++ closing :: (rest.tokens ++ later)))
        = closingFrom (depth + 1) (i + 1) (body.tokens ++ closing :: (rest.tokens ++ later)) := by
      conv_lhs => rw [closingFrom.eq_def]
      simp only [ho]
    have last (j : Nat) : closingFrom (depth + 1) j (closing :: (rest.tokens ++ later))
        = closingFrom depth (j + 1) (rest.tokens ++ later) := by
      conv_lhs => rw [closingFrom.eq_def]
      simp only [hc]
    rw [e, first, ihBody formedBody, last, ihRest formedRest]
    congr 1
    simp [Outline.tokens]
    omega

/-! ### Ranges of tokens -/

/-- From index `i` on stand the tokens of an outline. -/
structure Has (s : Scan) (i : Nat) (x : Outline) : Prop where
  placed : s.Placed
  regular : x.Regular
  split : ∃ before after, s.tokens = before ++ (x.tokens ++ after) ∧ before.length = i

variable {i : Nat} {x body rest : Outline} {t opening closing : Token} {o : Optimizations}

theorem Has.token (h : s.Has i (.token t rest)) : s.tokens[i]? = some t ∧ s.Has (i + 1) rest := by
  obtain ⟨placed, regular, before, after, split, rfl⟩ := h
  rw [Outline.tokens] at split
  refine ⟨by simp [split], placed, regular.token.2, before ++ [t], after, by simp [split], by simp⟩

theorem Has.inside (h : s.Has i (.loop opening closing body rest)) : s.Has (i + 1) body := by
  obtain ⟨placed, regular, before, after, split, rfl⟩ := h
  rw [Outline.tokens] at split
  exact ⟨placed, regular.body, before ++ [opening], closing :: (rest.tokens ++ after), by simp [split], by simp⟩

theorem Has.past (h : s.Has i (.loop opening closing body rest)) : s.Has (i + body.tokens.length + 2) rest := by
  obtain ⟨placed, regular, before, after, split, rfl⟩ := h
  rw [Outline.tokens] at split
  refine ⟨placed, regular.rest, before ++ opening :: (body.tokens ++ [closing]), after, by simp [split], ?_⟩
  simp
  omega

theorem Has.brackets (h : s.Has i (.loop opening closing body rest)) :
    s.tokens[i]? = some opening ∧ s.tokens[i + 1 + body.tokens.length]? = some closing := by
  obtain ⟨placed, regular, before, after, split, rfl⟩ := h
  rw [Outline.tokens] at split
  constructor
  · simp [split]
  · rw [split, List.getElem?_append_right (by omega)]
    have index : before.length + 1 + body.tokens.length - before.length = body.tokens.length + 1 := by omega
    simp [index]

theorem Has.partner? (h : s.Has i (.loop opening closing body rest)) :
    s.partner? i = some (i + 1 + body.tokens.length) := by
  obtain ⟨placed, regular, before, after, split, rfl⟩ := h
  obtain ⟨ho, hc, formed, -⟩ := regular.formed
  have drop : s.tokens.drop before.length = opening :: (body.tokens ++ closing :: (rest.tokens ++ after)) := by
    rw [split, List.drop_left]
    simp [Outline.tokens]
  have found : closingFrom 0 (before.length + 1) (body.tokens ++ closing :: (rest.tokens ++ after))
      = some (before.length + 1 + body.tokens.length) := by
    rw [closingFrom_tokens formed, closingFrom.eq_def]
    simp only [hc]
  rcases opening with ⟨symbol, count, start, position⟩
  cases ho
  rw [placed.partner, closer?, drop]
  exact found

theorem Has.textBetween? (h : s.Has i x) : s.textBetween? i (i + x.tokens.length) = some x.text := by
  obtain ⟨placed, regular, before, after, split, rfl⟩ := h
  exact placed.textBetween? split

theorem Has.tokensBetween? (h : s.Has i x) : s.tokensBetween? i (i + x.tokens.length) = some x.tokens := by
  obtain ⟨placed, regular, before, after, split, rfl⟩ := h
  have room : before.length ≤ before.length + x.tokens.length ∧
      before.length + x.tokens.length ≤ s.tokens.length := by
    rw [split]
    simp
  rw [Scan.tokensBetween?, if_pos room, between_eq split]

theorem Has.verdictAt (h : s.Has i (.loop opening closing body rest)) :
    s.verdictAt o i (i + 1 + body.tokens.length) = .ok (body.verdict o) := by
  simp only [Scan.verdictAt, idiomAt, h.inside.textBetween?, h.inside.tokensBetween?, Outline.verdict]
  generalize Idiom.ofLoopBody? body.text = found
  rcases o with ⟨idioms, closedForms⟩
  cases idioms with
  | false => cases closedForms <;> rfl
  | true =>
    cases found with
    | some form => rfl
    | none => cases closedForms <;> rfl

/-! ### Fragments that may stand anywhere -/

theorem symbols_token_cons (valid : t.Valid) :
    (Outline.token t rest).symbols = t.symbol :: (List.replicate (t.count - 1) t.symbol ++ rest.symbols) := by
  obtain ⟨n, hn⟩ := Nat.exists_eq_succ_of_ne_zero (Nat.ne_of_gt valid.pos)
  rw [Outline.symbols_token, Token.spell, hn, List.replicate_succ]
  rfl

/-- An outline whose text starts with a symbol other than `[` starts with a token of it. -/
theorem token_of_symbols (regular : x.Regular) {symbol : Symbol} {later : List Symbol}
    (h : x.symbols = symbol :: later) (ho : symbol ≠ .opening) :
    ∃ t rest, x = .token t rest ∧ t.symbol = symbol ∧
      List.replicate (t.count - 1) symbol ++ rest.symbols = later := by
  cases x with
  | done => cases h
  | token t rest =>
    rw [symbols_token_cons regular.token.1, List.cons.injEq] at h
    obtain ⟨rfl, h⟩ := h
    exact ⟨t, rest, rfl, rfl, h⟩
  | loop opening closing body rest =>
    rw [Outline.symbols_loop regular, List.cons.injEq] at h
    exact absurd h.1.symm ho

theorem loop_of_symbols (regular : x.Regular) {later : List Symbol} (h : x.symbols = .opening :: later) :
    ∃ opening closing body rest, x = .loop opening closing body rest ∧
      body.symbols ++ .closing :: rest.symbols = later := by
  cases x with
  | done => cases h
  | token t rest =>
    rw [symbols_token_cons regular.token.1, List.cons.injEq] at h
    exact absurd h.1 regular.formed.1
  | loop opening closing body rest =>
    rw [Outline.symbols_loop regular, List.cons.injEq] at h
    exact ⟨opening, closing, body, rest, rfl, h.2⟩

/-- Where the text starts with the fragment, the outline does, but its last token may hold more than the last symbol
of the fragment. -/
theorem subtraction_of_text (regular : x.Regular) (h : Idiom.spelling Idiom.subtraction <+: x.text) :
    ∃ before opening closing body after rest,
      x = .token before (.loop opening closing body (.token after rest)) ∧ before.spell = [.right] ∧
      body.text = Idiom.spelling Idiom.subtractionBody ∧ after.symbol = .left := by
  obtain ⟨later, whole⟩ : Idiom.subtraction <+: x.symbols :=
    (List.prefix_map_iff_of_injective fun _ _ => Symbol.toByte_injective).1 h
  obtain ⟨before, y, rfl, first, fromOpening⟩ := token_of_symbols regular whole.symm (by decide)
  -- a longer run of `>` would not be followed by `[`
  have single : before.count - 1 = 0 := by
    cases more : before.count - 1 with
    | zero => rfl
    | succ n =>
      rw [more, List.replicate_succ] at fromOpening
      cases fromOpening
  rw [single] at fromOpening
  obtain ⟨valid, regular⟩ := regular.token
  obtain ⟨opening, closing, body, z, rfl, inside⟩ := loop_of_symbols regular fromOpening
  change _ = Idiom.subtractionBody ++ .closing :: .left :: later at inside
  -- the `]` of the loop is the first one
  have length : body.symbols.length = Idiom.subtractionBody.length := by
    have passed : Reference.reach .opening .closing 0 (body.symbols ++ .closing :: z.symbols) = 5 := by
      rw [inside]
      rfl
    rw [Reference.reach_symbols regular.body, Reference.reach_last] at passed
    exact Nat.succ.inj passed
  obtain ⟨same, fromClosing⟩ := List.append_inj inside length
  obtain ⟨after, rest, rfl, last, -⟩ := token_of_symbols regular.rest (List.cons.inj fromClosing).2 (by decide)
  refine ⟨before, opening, closing, body, after, rest, rfl, ?_, congrArg Idiom.spelling same, last⟩
  have pos := valid.pos
  have count : before.count = 1 := by omega
  rw [Token.spell, count, first]
  rfl

/-- Only one fragment may stand anywhere. -/
theorem Has.sequenceAt_eq (h : s.Has i x) (idioms : o.idioms = true) :
    s.sequenceAt o i (i + x.tokens.length) = .ok (if Idiom.spelling Idiom.subtraction <+: x.text
      then (s.tokenAt? (s.offsetOf i + 8)).map (·, .block Idiom.subtractionProgram) else none) := by
  simp only [sequenceAt, if_pos idioms, h.textBetween?, Idiom.ofSequence?, Idiom.sequences, List.find?_singleton,
    List.isPrefixOf_iff_prefix]
  split <;> rfl

section

variable {b a : Token}

/-- The text of the fragment up to its last token. -/
theorem lengthOf_subtraction (regular : (Outline.token b (.loop opening closing body (.token a rest))).Regular)
    (first : b.spell = [.right]) (text : body.text = Idiom.spelling Idiom.subtractionBody) :
    lengthOf (b :: opening :: (body.tokens ++ [closing])) = 7 := by
  obtain ⟨-, regular⟩ := regular.token
  obtain ⟨ho, hc, -⟩ := regular.formed
  have count : b.count = 1 := by simpa [Token.spell] using congrArg List.length first
  have countOpening := (regular.canonical.valid opening (by simp [Outline.tokens])).single (by rw [ho]; rfl)
  have countClosing := (regular.canonical.valid closing (by simp [Outline.tokens])).single (by rw [hc]; rfl)
  have length : lengthOf body.tokens = 4 := by
    rw [lengthOf, ← List.length_map toByte]
    exact congrArg List.length text
  rw [lengthOf_cons, lengthOf_cons, lengthOf_append, lengthOf_cons, count, countOpening, countClosing, length]
  rfl

/-- The fragment is found where it stands. -/
theorem Has.sequenceAt_subtraction (h : s.Has i (.token b (.loop opening closing body (.token a rest))))
    (idioms : o.idioms = true) (sub : Outline.IsSubtraction b body a) :
    s.sequenceAt o i (i + (Outline.token b (.loop opening closing body (.token a rest))).tokens.length)
      = .ok (some (i + body.tokens.length + 4, .block Idiom.subtractionProgram)) := by
  obtain ⟨first, text, last⟩ := sub
  have starts : Idiom.spelling Idiom.subtraction
      <+: (Outline.token b (.loop opening closing body (.token a rest))).text := by
    refine (List.IsPrefix.map toByte ⟨rest.symbols, ?_⟩)
    have same : body.symbols = Idiom.subtractionBody :=
      List.map_injective_iff.2 (fun _ _ => Symbol.toByte_injective) text
    show _ = (Outline.token b (.loop opening closing body (.token a rest))).symbols
    rw [Outline.symbols_token, Outline.symbols_loop h.regular.token.2, Outline.symbols_token, first, last, same]
    rfl
  rw [h.sequenceAt_eq idioms, if_pos starts]
  have length := lengthOf_subtraction h.regular first text
  obtain ⟨placed, regular, before, after, split, rfl⟩ := h
  have split' : s.tokens
      = (before ++ b :: opening :: (body.tokens ++ [closing]) ++ [a]) ++ (rest.tokens ++ after) := by
    rw [split]
    simp [Outline.tokens]
  have count : a.count = 1 := by simpa [Token.spell] using congrArg List.length last
  have behind : lengthOf (before ++ b :: opening :: (body.tokens ++ [closing]) ++ [a]) = lengthOf before + 8 := by
    rw [lengthOf_append, lengthOf_append, length, lengthOf_cons, count]
    rfl
  rw [placed.offsetOf split, ← behind, placed.tokenAt? split']
  simp
  omega

/-- Nothing is found anywhere else: behind a longer run of `<` no token starts where the fragment ends. -/
theorem Has.sequenceAt_eq_none (h : s.Has i x)
    (plain : o.idioms = true → ∀ b opening closing body a rest,
      x = .token b (.loop opening closing body (.token a rest)) → ¬ Outline.IsSubtraction b body a) :
    s.sequenceAt o i (i + x.tokens.length) = .ok none := by
  by_cases idioms : o.idioms = true
  · rw [h.sequenceAt_eq idioms]
    split
    · next starts =>
      obtain ⟨b, opening, closing, body, a, rest, rfl, first, text, last⟩ := subtraction_of_text h.regular starts
      have length := lengthOf_subtraction h.regular first text
      obtain ⟨placed, regular, before, after, split, rfl⟩ := h
      -- otherwise this were the fragment
      have more : a.count ≠ 1 := by
        intro one
        refine plain idioms _ _ _ _ _ _ rfl ⟨first, text, ?_⟩
        rw [Token.spell, one, last]
        rfl
      have pos : 0 < a.count := regular.token.2.rest.token.1.pos
      have split' : s.tokens
          = (before ++ b :: opening :: (body.tokens ++ [closing])) ++ a :: (rest.tokens ++ after) := by
        rw [split]
        simp [Outline.tokens]
      have behind : lengthOf (before ++ b :: opening :: (body.tokens ++ [closing])) = lengthOf before + 7 := by
        rw [lengthOf_append, length]
      rw [placed.offsetOf split, placed.tokenAt?_inside split' (by omega) (by omega)]
      rfl
    · rfl
  · rw [sequenceAt, if_neg idioms]

end

/-! ### The walk -/

theorem Has.walk_sequence {b a : Token} (h : s.Has i (.token b (.loop opening closing body (.token a rest))))
    (idioms : o.idioms = true) (sub : Outline.IsSubtraction b body a) (budget : Nat) :
    s.Has (i + body.tokens.length + 4) rest ∧
      s.walk o (budget + 1) i (i + (Outline.token b (.loop opening closing body (.token a rest))).tokens.length)
        = (s.walk o budget (i + body.tokens.length + 4) (i + body.tokens.length + 4 + rest.tokens.length)).map
          (.block Idiom.subtractionProgram :: ·) := by
  have found := h.sequenceAt_subtraction idioms sub
  have behind : i + 1 + body.tokens.length + 2 + 1 = i + body.tokens.length + 4 := by omega
  have stop : i + (Outline.token b (.loop opening closing body (.token a rest))).tokens.length
      = i + body.tokens.length + 4 + rest.tokens.length := by
    simp only [Outline.tokens, List.length_cons, List.length_append]
    omega
  refine ⟨behind ▸ h.token.2.past.token.2, ?_⟩
  rw [walk, found, if_pos (by omega), stop]

variable {budget : Nat}

theorem Has.walk_token (h : s.Has i (.token t rest))
    (plain : o.idioms = true → ∀ opening closing body a later,
      rest = .loop opening closing body (.token a later) → ¬ Outline.IsSubtraction t body a) :
    s.walk o (budget + 1) i (i + (Outline.token t rest).tokens.length)
      = (s.walk o budget (i + 1) (i + 1 + rest.tokens.length)).map (t.instruction :: ·) := by
  have nothing : s.sequenceAt o i (i + (Outline.token t rest).tokens.length) = .ok none := by
    refine h.sequenceAt_eq_none ?_
    rintro idioms b opening closing body a later ⟨⟩
    exact plain idioms opening closing body a later rfl
  obtain ⟨ho, hc, -⟩ := h.regular.formed
  have stop : i + (Outline.token t rest).tokens.length = i + 1 + rest.tokens.length := by
    rw [Outline.tokens, List.length_cons]
    omega
  rw [walk, nothing, h.token.1, if_pos (by omega), stop]
  simp only

theorem Has.walk_loop (h : s.Has i (.loop opening closing body rest))
    (inside : s.walk o budget (i + 1) (i + 1 + body.tokens.length) = (body.lower o).mapError .rejected) :
    s.walk o (budget + 1) i (i + (Outline.loop opening closing body rest).tokens.length)
      = ((body.lowerLoop o).mapError .rejected).bind fun first =>
        (s.walk o budget (i + body.tokens.length + 2) (i + body.tokens.length + 2 + rest.tokens.length)).map
          (first :: ·) := by
  have nothing : s.sequenceAt o i (i + (Outline.loop opening closing body rest).tokens.length) = .ok none := by
    refine h.sequenceAt_eq_none ?_
    rintro _ b opening closing body a later ⟨⟩
  have stop : i + (Outline.loop opening closing body rest).tokens.length
      = i + body.tokens.length + 2 + rest.tokens.length := by
    rw [Outline.tokens, List.length_cons, List.length_append, List.length_cons]
    omega
  have past : i + 1 + body.tokens.length + 1 = i + body.tokens.length + 2 := by omega
  rw [walk, nothing, h.brackets.1, if_pos (by omega), stop]
  simp only [h.regular.formed.1, h.partner?, h.verdictAt, past, Outline.lowerLoop, inside]
  cases body.verdict o with
  | kept => rw [mapError_map]
  | _ => rfl

/-- With one step for each token and one more, the walk gives what lowering the outline gives. -/
theorem Has.walk_eq_lower (h : s.Has i x) (room : x.tokens.length < budget) :
    s.walk o budget i (i + x.tokens.length) = (x.lower o).mapError .rejected := by
  fun_induction Outline.lower o x generalizing i budget with
  | case1 =>
    obtain ⟨budget, rfl⟩ := Nat.exists_eq_add_one.2 room
    rw [walk, if_neg (by simp [Outline.tokens])]
    rfl
  | case2 before opening closing body after rest sub ih =>
    simp only [Outline.tokens, List.length_cons, List.length_append] at room
    obtain ⟨budget, rfl⟩ := Nat.exists_eq_add_one.2 (Nat.zero_lt_of_lt room)
    obtain ⟨behind, step⟩ := h.walk_sequence sub.1 sub.2 budget
    rw [step, ih behind (by omega), mapError_map]
  | case3 before opening closing body after rest sub ih =>
    rw [Outline.tokens, List.length_cons] at room
    obtain ⟨budget, rfl⟩ := Nat.exists_eq_add_one.2 (Nat.zero_lt_of_lt room)
    have plain : o.idioms = true → ∀ opening' closing' body' a later,
        Outline.loop opening closing body (.token after rest) = .loop opening' closing' body' (.token a later) →
          ¬ Outline.IsSubtraction before body' a := by
      rintro idioms _ _ _ _ _ ⟨⟩ is
      exact sub ⟨idioms, is⟩
    rw [h.walk_token plain, ih h.token.2 (by omega), mapError_map]
  | case4 t rest plain ih =>
    rw [Outline.tokens, List.length_cons] at room
    obtain ⟨budget, rfl⟩ := Nat.exists_eq_add_one.2 (Nat.zero_lt_of_lt room)
    rw [h.walk_token fun _ opening closing body a later e => absurd e (plain opening closing body a later),
      ih h.token.2 (by omega), mapError_map]
  | case5 opening closing body rest lowered ihBody =>
    rename_i ihRest
    rw [Outline.tokens, List.length_cons, List.length_append, List.length_cons] at room
    obtain ⟨budget, rfl⟩ := Nat.exists_eq_add_one.2 (Nat.zero_lt_of_lt room)
    rw [h.walk_loop (ihBody h.inside (by omega)), ihRest h.past (by omega), mapError_bind]
    simp only [mapError_map]
    rfl

end Scan

end TapeLang
