import TapeLang.Proofs.Outcomes
import TapeLang.Proofs.Ranges
import TapeLang.Proofs.Replacement

/-!
# Which texts are rejected

A text whose brackets are in order is rejected only for a loop that goes too far, and only if such loops would be
replaced (`fails_iff_far_loop`).  Whether fragments of the catalogue are replaced makes no difference: none of them
goes too far, nor does a loop in one of them.

Lowering stops at the first such loop of the outline (`Outline.rejection?`).  That is the one with the smallest index
among the tokens, and so the one that stands first in the text.
-/

namespace TapeLang

open LoopSummary

/-- How far symbols take the cursor. -/
def cursorOf (symbols : List Symbol) : Int := symbols.count .right - symbols.count .left

/-- From the `[` at byte `a` to the `]` at byte `b` there are only moves and adds, and somewhere among them the cursor
is where a signed byte does not reach. -/
def FarLoop (source : List UInt8) (a b : Nat) : Prop :=
  ∃ before body after, marks source = before ++ ⟨.opening, a⟩ :: (body ++ ⟨.closing, b⟩ :: after) ∧
    (∀ m ∈ body, m.symbol.isRun = true) ∧ ∃ l, l <+: body ∧ ¬ FitsByte (cursorOf (l.map Mark.symbol))

def FirstFarLoop (source : List UInt8) (a b : Nat) : Prop :=
  FarLoop source a b ∧ ∀ a' b', FarLoop source a' b' → a ≤ a'

/-- The move `t` is the first token after which the cursor is out of range, and then it is at `offset`. -/
def Leaves (body : List Token) (t : Token) (offset : Int) : Prop :=
  ∃ earlier later, body = earlier ++ t :: later ∧ (t.symbol = .right ∨ t.symbol = .left) ∧
    (∀ l, l <+: earlier → FitsByte (cursorOf (l.flatMap Token.spell))) ∧
    offset = cursorOf ((earlier ++ [t]).flatMap Token.spell) ∧ ¬ FitsByte offset

/-- The tokens that start between two bytes of the source. -/
def Scan.tokensIn (s : Scan) (a b : Nat) : List Token := s.tokens.filter fun t => a < t.position ∧ t.position < b

/-! ### The cursor -/

theorem cursorOf_append (l l' : List Symbol) : cursorOf (l ++ l') = cursorOf l + cursorOf l' := by
  simp only [cursorOf, List.count_append]
  omega

theorem cursorOf_spell (t : Token) : cursorOf t.spell = shift t := by
  rcases t with ⟨symbol, count, start, position⟩
  cases symbol <;> simp [cursorOf, Token.spell, shift, List.count_replicate]

/-- Inside a run the cursor is between where the run starts and where it ends. -/
theorem fitsByte_of_prefix_spell {t : Token} {c : Int} {l : List Symbol} (before : FitsByte c)
    (after : FitsByte (c + shift t)) (h : l <+: t.spell) : FitsByte (c + cursorOf l) := by
  obtain ⟨n, hn, rfl⟩ : ∃ n, n ≤ t.count ∧ l = List.replicate n t.symbol := by
    refine ⟨l.length, ?_, ?_⟩
    · simpa [Token.spell] using h.length_le
    · exact List.eq_replicate_of_mem fun s hs => List.eq_of_mem_replicate (h.subset hs)
  have part : cursorOf (List.replicate n t.symbol) = shift ⟨t.symbol, n, 0, 0⟩ := cursorOf_spell ⟨t.symbol, n, 0, 0⟩
  rw [part]
  rcases t with ⟨symbol, count, start, position⟩
  cases symbol with
  | right | left =>
    simp only [FitsByte, shift] at *
    omega
  | _ => simpa [shift] using before

/-- If no token takes the cursor out of range, no symbol does. -/
theorem fitsByte_of_firstFar? {ts : List Token} {c : Int} (h : firstFar? c ts = none) (fits : FitsByte c)
    {l : List Symbol} (part : l <+: ts.flatMap Token.spell) : FitsByte (c + cursorOf l) := by
  induction ts generalizing c l with
  | nil =>
    obtain rfl := List.prefix_nil.1 part
    simpa [cursorOf] using fits
  | cons t ts ih =>
    unfold firstFar? at h
    split at h
    · next next =>
      rw [List.flatMap_cons] at part
      rcases List.prefix_or_prefix_of_prefix part (List.prefix_append t.spell _) with inside | ⟨l, rfl⟩
      · exact fitsByte_of_prefix_spell fits next inside
      · rw [List.prefix_append_right_inj] at part
        rw [cursorOf_append, cursorOf_spell, ← Int.add_assoc]
        exact ih h next part
    · cases h

theorem leaves_of_firstFar? {ts : List Token} {c d : Int} {p : Nat} (h : firstFar? c ts = some (p, d))
    (fits : FitsByte c) : ∃ earlier t later, ts = earlier ++ t :: later ∧ t.position = p ∧
      (t.symbol = .right ∨ t.symbol = .left) ∧
      (∀ l, l <+: earlier → FitsByte (c + cursorOf (l.flatMap Token.spell))) ∧
      d = c + cursorOf ((earlier ++ [t]).flatMap Token.spell) ∧ ¬ FitsByte d := by
  induction ts generalizing c with
  | nil => cases h
  | cons t ts ih =>
    unfold firstFar? at h
    split at h
    · next next =>
      obtain ⟨earlier, k, later, rfl, position, move, near, offset, far⟩ := ih h next
      refine ⟨t :: earlier, k, later, rfl, position, move, ?_, ?_, far⟩
      · intro l hl
        rcases List.prefix_cons_iff.1 hl with rfl | ⟨inner, rfl, part⟩
        · simpa [cursorOf] using fits
        · rw [List.flatMap_cons, cursorOf_append, cursorOf_spell, ← Int.add_assoc]
          exact near inner part
      · rw [offset, List.cons_append, List.flatMap_cons, cursorOf_append, cursorOf_spell]
        omega
    · next far =>
      cases h
      refine ⟨[], t, ts, rfl, rfl, ?_, ?_, by simp [cursorOf_spell], far⟩
      · rcases t with ⟨symbol, count, start, position⟩
        cases symbol with
        | right => exact .inl rfl
        | left => exact .inr rfl
        | _ => exact absurd (by simpa [shift] using fits) far
      · intro l hl
        obtain rfl := List.prefix_nil.1 hl
        simpa [cursorOf] using fits

/-! ### Bodies that go too far -/

/-- Why a loop with this body is rejected, if it is. -/
def farOffset? (body : List Token) : Option SourceError :=
  match ofBody body with
  | .error (.farOffset position offset) => some (.farOffset position offset)
  | _ => none

theorem farOffset?_of_isRun {body : List Token} (plain : ∀ t ∈ body, t.symbol.isRun = true) :
    farOffset? body = (firstFar? 0 body).map fun far => .farOffset far.1 far.2 := by
  simp only [farOffset?, ofBody_eq, firstEffect?_eq_none_iff.2 plain]
  cases firstFar? 0 body <;> rfl

theorem isRun_of_farOffset? {body : List Token} {e : SourceError} (h : farOffset? body = some e) :
    ∀ t ∈ body, t.symbol.isRun = true := by
  rw [farOffset?, ofBody_eq] at h
  cases effect : firstEffect? body with
  | some symbol =>
    rw [effect] at h
    cases h
  | none => exact firstEffect?_eq_none_iff.1 effect

theorem leaves_of_farOffset? {body : List Token} {e : SourceError} (h : farOffset? body = some e) :
    ∃ t offset, Leaves body t offset ∧ e = .farOffset t.position offset := by
  rw [farOffset?_of_isRun (isRun_of_farOffset? h), Option.map_eq_some_iff] at h
  obtain ⟨⟨p, d⟩, far, rfl⟩ := h
  obtain ⟨earlier, t, later, split, rfl, move, near, offset, out⟩ := leaves_of_firstFar? far fitsByte_zero
  simp only [Int.zero_add] at near offset
  exact ⟨t, d, ⟨earlier, later, split, move, near, offset, out⟩, rfl⟩

/-- Some token takes the cursor out of range if some symbol does. -/
theorem farOffset?_isSome_iff {body : List Token} (plain : ∀ t ∈ body, t.symbol.isRun = true) :
    (farOffset? body).isSome = true ↔ ∃ l, l <+: body.flatMap Token.spell ∧ ¬ FitsByte (cursorOf l) := by
  constructor
  · intro some
    obtain ⟨e, h⟩ := Option.isSome_iff_exists.1 some
    obtain ⟨t, offset, ⟨earlier, later, rfl, -, -, rfl, out⟩, -⟩ := leaves_of_farOffset? h
    refine ⟨_, ?_, out⟩
    exact ⟨later.flatMap Token.spell, by simp⟩
  · rintro ⟨l, part, out⟩
    rw [farOffset?_of_isRun plain, Option.isSome_map]
    by_contra none
    rw [Bool.not_eq_true, Option.isSome_eq_false_iff, Option.isNone_iff_eq_none] at none
    have fits := fitsByte_of_firstFar? none fitsByte_zero part
    rw [Int.zero_add] at fits
    exact out fits

theorem farOffset?_places {g : Token → Token} {f : Nat → Nat} (h : Token.Places g f) (body : List Token) :
    farOffset? (body.map g) = (farOffset? body).map (SourceError.relocate f) := by
  rw [farOffset?, farOffset?, ofBody_places h]
  cases ofBody body with
  | ok s => rfl
  | error e => cases e <;> rfl

/-! ### The first loop of an outline that goes too far -/

namespace Outline

variable {o : Optimizations} {x body rest : Outline}

/-- Why an outline is rejected, if it is. -/
def rejection? : Outline → Option SourceError
  | done => none
  | token _ rest => rest.rejection?
  | loop _ _ body rest => ((farOffset? body.tokens).or body.rejection?).or rest.rejection?

theorem rejection?_places {g : Token → Token} {f : Nat → Nat} (h : Token.Places g f) (x : Outline) :
    (x.map g).rejection? = x.rejection?.map (SourceError.relocate f) := by
  induction x with
  | done => rfl
  | token t rest ih => exact ih
  | loop opening closing body rest ihBody ihRest =>
    rw [map, rejection?, rejection?, tokens_map, farOffset?_places h, ihBody, ihRest, Option.map_or, Option.map_or]

/-- Where there are only moves and adds there is no loop. -/
theorem rejection?_of_isRun (formed : x.Formed) (plain : ∀ t ∈ x.tokens, t.symbol.isRun = true) :
    x.rejection? = none := by
  induction x with
  | done => rfl
  | token t rest ih => exact ih formed.2.2 fun k hk => plain k (List.mem_cons_of_mem _ hk)
  | loop opening closing body rest _ _ =>
    have h := plain opening (by simp [tokens])
    rw [formed.1] at h
    cases h

/-- No fragment of the catalogue goes too far, nor does a loop in it. -/
theorem near_of_mem_loopBodies : ∀ entry ∈ Idiom.loopBodies,
    (farOffset? (ofSymbols entry.1).tokens).or (ofSymbols entry.1).rejection? = none := by
  decide

theorem near_of_text {symbols : List Symbol} (regular : body.Regular) (text : body.text = Idiom.spelling symbols)
    (near : (farOffset? (ofSymbols symbols).tokens).or (ofSymbols symbols).rejection? = none) :
    (farOffset? body.tokens).or body.rejection? = none := by
  rw [← regular.bare_eq text, bare_eq_map, tokens_map, farOffset?_places Token.places_bare,
    rejection?_places Token.places_bare, ← Option.map_or, Option.map_eq_none_iff] at near
  exact near

theorem lowerLoop_eq_error_iff (regular : body.Regular)
    (inside : ∀ e, body.lower o = .error e ↔ o.closedForms = true ∧ body.rejection? = some e) (e : SourceError) :
    body.lowerLoop o = .error e
      ↔ o.closedForms = true ∧ (farOffset? body.tokens).or body.rejection? = some e := by
  unfold lowerLoop verdict
  cases found : (if o.idioms then Idiom.ofLoopBody? body.text else none) with
  | some form =>
    have near : (farOffset? body.tokens).or body.rejection? = none := by
      split at found
      · obtain ⟨entry, found, -⟩ := Option.map_eq_some_iff.1 found
        have matched := List.find?_some found
        have text : body.text = Idiom.spelling entry.1 := (beq_iff_eq.1 matched).symm
        exact near_of_text regular text (near_of_mem_loopBodies entry (List.mem_of_find?_eq_some found))
      · cases found
    simp [near]
  | none =>
    by_cases closed : o.closedForms = true
    · simp only [if_pos closed, verdictOfSummary, farOffset?]
      cases hb : ofBody body.tokens with
      | ok summary =>
        -- the body is replaced unseen, but there is no loop in it
        have none := rejection?_of_isRun regular.formed (ofBody_eq_ok hb).1
        simp only [none]
        cases summary.closedForm? <;> simp
      | error obstacle =>
        cases obstacle with
        | farOffset position offset => simp [closed]
        | effect symbol =>
          rw [map_eq_error_iff, inside]
          rfl
    · simp only [if_neg closed]
      rw [map_eq_error_iff, inside]
      simp [closed]

/-- Lowering fails if and only if closed forms are wanted and some loop goes too far; the error is that of the first
one. -/
theorem lower_eq_error_iff (regular : x.Regular) (e : SourceError) :
    x.lower o = .error e ↔ o.closedForms = true ∧ x.rejection? = some e := by
  fun_induction lower o x generalizing e with
  | case1 => simp [rejection?]
  | case2 before opening closing body after rest sub ih =>
    have near : (farOffset? body.tokens).or body.rejection? = none :=
      near_of_text regular.token.2.body sub.2.2.1
        (near_of_mem_loopBodies (Idiom.subtractionBody, .transferSub (-1)) (by decide))
    rw [map_eq_error_iff, ih regular.token.2.rest.token.2, rejection?, rejection?, near, Option.none_or, rejection?]
  | case3 before opening closing body after rest sub ih => rw [map_eq_error_iff, ih regular.token.2, rejection?]
  | case4 t rest plain ih => rw [map_eq_error_iff, ih regular.token.2, rejection?]
  | case5 opening closing body rest lowered ihBody =>
    rename_i ihRest
    have head (e : SourceError) : lowered = .error e ↔ _ :=
      lowerLoop_eq_error_iff regular.body (ihBody regular.body) e
    rw [rejection?]
    -- what follows the loop is looked at only if the loop itself is lowered
    cases hl : lowered with
    | error e' =>
      obtain ⟨closed, far⟩ := (head e').1 hl
      rw [far, Option.some_or]
      simp [Except.bind, closed]
    | ok i =>
      have near : o.closedForms = true → (farOffset? body.tokens).or body.rejection? = none := by
        intro closed
        rw [Option.eq_none_iff_forall_ne_some]
        intro e far
        have failed := (head e).2 ⟨closed, far⟩
        rw [hl] at failed
        cases failed
      have later : ((Except.ok i : Except SourceError Instruction).bind fun head => (lower o rest).map (head :: ·))
          = .error e ↔ lower o rest = .error e := map_eq_error_iff
      rw [later, ihRest regular.rest]
      constructor
      · rintro ⟨closed, far⟩
        exact ⟨closed, by rw [near closed, Option.none_or, far]⟩
      · rintro ⟨closed, far⟩
        rw [near closed, Option.none_or] at far
        exact ⟨closed, far⟩

end Outline

/-! ### The first token that opens such a loop -/

namespace Scan

variable {s : Scan} {i : Nat} {x : Outline}

/-- Why the loop that the token at index `i` opens is rejected, if it is. -/
def rejectionAt? (s : Scan) (i : Nat) : Option SourceError :=
  (s.partner? i).bind fun j => farOffset? ((s.tokens.take j).drop (i + 1))

theorem Placed.rejectionAt?_of_not_opening (h : s.Placed) {t : Token} (here : s.tokens[i]? = some t)
    (ho : t.symbol ≠ .opening) : s.rejectionAt? i = none := by
  have none : s.partner? i = none := by
    rw [h.partner]
    unfold closer?
    split
    · next drop =>
      rw [← List.head?_drop, drop] at here
      cases here
      exact absurd rfl ho
    · rfl
  rw [Scan.rejectionAt?, none]
  rfl

theorem Has.rejectionAt? {opening closing : Token} {body rest : Outline}
    (h : s.Has i (.loop opening closing body rest)) : s.rejectionAt? i = farOffset? body.tokens := by
  have between := h.inside.tokensBetween?
  unfold Scan.tokensBetween? at between
  split at between
  · rw [Scan.rejectionAt?, h.partner?, Option.bind_some, Option.some.inj between]
  · cases between

/-- In the order of the tokens, the first loop that goes too far is the one that lowering finds. -/
theorem Has.rejection? (h : s.Has i x) :
    x.rejection? = (List.range' i x.tokens.length).findSome? s.rejectionAt? := by
  induction x generalizing i with
  | done => rfl
  | token t rest ih =>
    obtain ⟨here, later⟩ := h.token
    rw [Outline.rejection?, Outline.tokens, List.length_cons, List.range'_succ, List.findSome?_cons,
      h.placed.rejectionAt?_of_not_opening here h.regular.formed.1, ih later]
  | loop opening closing body rest ihBody ihRest =>
    -- the indices of a loop are that of its `[`, those of the body, that of its `]`, which opens nothing, and the
    -- rest
    have closes : closing.symbol ≠ .opening := by
      rw [h.regular.formed.2.1]
      decide
    have range : List.range' i (Outline.loop opening closing body rest).tokens.length
        = i :: (List.range' (i + 1) body.tokens.length
          ++ (i + 1 + body.tokens.length) :: List.range' (i + body.tokens.length + 2) rest.tokens.length) := by
      have past : i + 1 + body.tokens.length + 1 = i + body.tokens.length + 2 := by omega
      rw [Outline.tokens, List.length_cons, List.range'_succ, List.length_append, ← List.range'_append_1,
        List.length_cons, List.range'_succ, past]
    rw [Outline.rejection?, range, List.findSome?_cons, h.rejectionAt?, List.findSome?_append, List.findSome?_cons,
      h.placed.rejectionAt?_of_not_opening h.brackets.2 closes, ← ihBody h.inside, ← ihRest h.past]
    cases farOffset? body.tokens with
    | some e => rfl
    | none => rfl

theorem closingFrom_eq_some {depth k j : Nat} {ts : List Token} (h : closingFrom depth k ts = some j) :
    ∃ mid closing after, ts = mid ++ closing :: after ∧ closing.symbol = .closing ∧ j = k + mid.length := by
  induction ts generalizing depth k with
  | nil => cases h
  | cons t ts ih =>
    have later {d : Nat} (h : closingFrom d (k + 1) ts = some j) :
        ∃ mid closing after, t :: ts = mid ++ closing :: after ∧ closing.symbol = .closing ∧ j = k + mid.length := by
      obtain ⟨mid, closing, after, rfl, hc, rfl⟩ := ih h
      refine ⟨t :: mid, closing, after, rfl, hc, ?_⟩
      rw [List.length_cons]
      omega
    unfold closingFrom at h
    split at h
    · exact later h
    · next hc =>
      cases depth with
      | zero => exact ⟨[], t, ts, rfl, hc, (Option.some.inj h).symm⟩
      | succ outer => exact later h
    · exact later h

theorem closingFrom_of_isRun {mid after : List Token} {closing : Token} (hc : closing.symbol = .closing) (k : Nat)
    (plain : ∀ t ∈ mid, t.symbol.isRun = true) :
    closingFrom 0 k (mid ++ closing :: after) = some (k + mid.length) := by
  induction mid generalizing k with
  | nil =>
    rw [List.nil_append, closingFrom.eq_def]
    simp only [hc]
    rfl
  | cons t mid ih =>
    have other {symbol : Symbol} (h : symbol.isRun = false) : t.symbol ≠ symbol := by
      rintro rfl
      exact absurd ((plain t (by simp)).symm.trans h) (by decide)
    rw [List.cons_append, closingFrom_other (other rfl) (other rfl),
      ih (k + 1) fun l hl => plain l (List.mem_cons_of_mem _ hl), List.length_cons]
    congr 1
    omega

theorem inside_eq {before body after : List Token} {opening : Token}
    (split : s.tokens = before ++ opening :: (body ++ after)) :
    (s.tokens.take (before.length + 1 + body.length)).drop (before.length + 1) = body := by
  have split' : s.tokens = (before ++ [opening]) ++ (body ++ after) := by
    rw [List.append_assoc]
    exact split
  have between := between_eq split'
  rwa [List.length_append, List.length_singleton] at between

/-- A loop is rejected that has only moves and adds between its brackets and goes too far. -/
theorem Placed.rejectionAt?_eq_some_iff (h : s.Placed) {e : SourceError} :
    s.rejectionAt? i = some e ↔ ∃ before opening body closing after,
      s.tokens = before ++ opening :: (body ++ closing :: after) ∧ before.length = i ∧
      opening.symbol = .opening ∧ closing.symbol = .closing ∧ farOffset? body = some e := by
  constructor
  · intro rejected
    obtain ⟨j, partner, far⟩ := Option.bind_eq_some_iff.1 rejected
    rw [h.partner] at partner
    unfold closer? at partner
    split at partner
    · next count start position rest drop =>
      obtain ⟨body, closing, after, rfl, hc, rfl⟩ := closingFrom_eq_some partner
      have length : (s.tokens.take i).length = i := by
        have nonempty := congrArg List.length drop
        rw [List.length_drop, List.length_cons] at nonempty
        rw [List.length_take]
        omega
      have split : s.tokens
          = s.tokens.take i ++ ⟨.opening, count, start, position⟩ :: (body ++ closing :: after) := by
        rw [← drop, List.take_append_drop]
      have inside := inside_eq split
      rw [length] at inside
      rw [inside] at far
      exact ⟨_, _, body, closing, after, split, length, rfl, hc, far⟩
    · cases partner
  · rintro ⟨before, opening, body, closing, after, split, rfl, ho, hc, far⟩
    have partner : s.partner? before.length = some (before.length + 1 + body.length) := by
      rw [h.partner, closer?, split, List.drop_left]
      rcases opening with ⟨symbol, count, start, position⟩
      cases ho
      exact closingFrom_of_isRun hc _ (isRun_of_farOffset? far)
    rw [Scan.rejectionAt?, partner, Option.bind_some, inside_eq split, far]

theorem Placed.lt_of_rejectionAt? (h : s.Placed) {e : SourceError} (rejected : s.rejectionAt? i = some e) :
    i < s.tokens.length := by
  obtain ⟨before, opening, body, closing, after, split, rfl, -⟩ := h.rejectionAt?_eq_some_iff.1 rejected
  rw [split, List.length_append, List.length_cons]
  omega

end Scan

/-! ### Brackets split the tokens -/

/-- The tokens of symbols before which so many others stand. -/
def tokensStarting (start : Nat) : List Mark → List Token
  | [] => []
  | m :: rest => tokensFrom ⟨m.symbol, 1, start, m.position⟩ rest

theorem tokensOf_eq (ms : List Mark) : tokensOf ms = tokensStarting 0 ms := by
  cases ms <;> rfl

theorem spell_tokensStarting (start : Nat) (ms : List Mark) :
    (tokensStarting start ms).flatMap Token.spell = ms.map Mark.symbol := by
  cases ms with
  | nil => rfl
  | cons m ms =>
    rw [tokensStarting, spell_tokensFrom, List.map_cons]
    rfl

theorem mark_of_mem_tokensFrom {run t : Token} {ms : List Mark} (h : t ∈ tokensFrom run ms) :
    ∃ m ∈ ⟨run.symbol, run.position⟩ :: ms, m.symbol = t.symbol ∧ m.position = t.position := by
  induction ms generalizing run with
  | nil =>
    rw [tokensFrom, List.mem_singleton] at h
    rw [h]
    exact ⟨_, List.mem_singleton_self _, rfl, rfl⟩
  | cons k ms ih =>
    unfold tokensFrom at h
    split at h
    · obtain ⟨m, hm, same⟩ := ih h
      refine ⟨m, ?_, same⟩
      rcases List.mem_cons.1 hm with rfl | hm
      · exact List.mem_cons_self
      · exact List.mem_cons_of_mem _ (List.mem_cons_of_mem _ hm)
    · rcases List.mem_cons.1 h with rfl | h
      · exact ⟨_, List.mem_cons_self, rfl, rfl⟩
      · obtain ⟨m, hm, same⟩ := ih h
        exact ⟨m, List.mem_cons_of_mem _ hm, same⟩

/-- A token has the symbol and the position of one of the symbols. -/
theorem mark_of_mem_tokensStarting {start : Nat} {t : Token} {ms : List Mark} (h : t ∈ tokensStarting start ms) :
    ∃ m ∈ ms, m.symbol = t.symbol ∧ m.position = t.position := by
  cases ms with
  | nil => cases h
  | cons m ms => exact mark_of_mem_tokensFrom h

theorem tokensFrom_single {run : Token} (alone : run.symbol.isRun = false) (ms : List Mark) :
    tokensFrom run ms = run :: tokensStarting run.stop ms := by
  cases ms with
  | nil => rfl
  | cons m ms =>
    have absorbs : ¬ run.Absorbs m.symbol := by
      rintro ⟨same, isRun, -⟩
      rw [← same, alone] at isRun
      cases isRun
    rw [tokensFrom, if_neg absorbs]
    rfl

/-- A symbol that does not come in runs is a token, and no other token reaches across it. -/
theorem tokensFrom_append {m : Mark} (alone : m.symbol.isRun = false) (run : Token) (ms later : List Mark) :
    tokensFrom run (ms ++ m :: later) = tokensFrom run ms
      ++ ⟨m.symbol, 1, run.stop + ms.length, m.position⟩ :: tokensStarting (run.stop + ms.length + 1) later := by
  induction ms generalizing run with
  | nil =>
    have absorbs : ¬ run.Absorbs m.symbol := by
      rintro ⟨-, isRun, -⟩
      rw [alone] at isRun
      cases isRun
    have split : tokensFrom run (m :: later) = run :: tokensFrom ⟨m.symbol, 1, run.stop, m.position⟩ later := by
      rw [tokensFrom, if_neg absorbs]
    rw [List.nil_append, split, tokensFrom_single alone]
    rfl
  | cons k ms ih =>
    rw [List.cons_append, tokensFrom, tokensFrom, List.length_cons]
    split
    · have stop : Token.stop { run with count := run.count + 1 } + ms.length = run.stop + (ms.length + 1) := by
        simp only [Token.stop]
        omega
      rw [ih, stop]
    · have stop : Token.stop ⟨k.symbol, 1, run.stop, k.position⟩ + ms.length = run.stop + (ms.length + 1) := by
        simp only [Token.stop]
        omega
      rw [ih, stop, List.cons_append]

theorem tokensStarting_append {m : Mark} (alone : m.symbol.isRun = false) (start : Nat) (ms later : List Mark) :
    tokensStarting start (ms ++ m :: later) = tokensStarting start ms
      ++ ⟨m.symbol, 1, start + ms.length, m.position⟩ :: tokensStarting (start + ms.length + 1) later := by
  cases ms with
  | nil => exact tokensFrom_single alone later
  | cons k ms =>
    have stop : Token.stop ⟨k.symbol, 1, start, k.position⟩ + ms.length = start + (k :: ms).length := by
      simp only [Token.stop, List.length_cons]
      omega
    rw [List.cons_append, tokensStarting, tokensFrom_append alone, stop]
    rfl

theorem tokensOf_loop (before body after : List Mark) (a b : Nat) :
    tokensOf (before ++ ⟨.opening, a⟩ :: (body ++ ⟨.closing, b⟩ :: after))
      = tokensOf before ++ ⟨.opening, 1, before.length, a⟩ :: (tokensStarting (before.length + 1) body
        ++ ⟨.closing, 1, before.length + 1 + body.length, b⟩
          :: tokensStarting (before.length + 1 + body.length + 1) after) := by
  rw [tokensOf_eq, tokensStarting_append rfl, tokensStarting_append rfl, ← tokensOf_eq, Nat.zero_add]

/-- Every loop among the tokens is one among the symbols. -/
theorem marks_of_tokensOf {ms : List Mark} {ts toks ts' : List Token} {opening closing : Token}
    (split : tokensOf ms = ts ++ opening :: (toks ++ closing :: ts')) (ho : opening.symbol = .opening)
    (hc : closing.symbol = .closing) :
    ∃ before body after,
      ms = before ++ ⟨.opening, opening.position⟩ :: (body ++ ⟨.closing, closing.position⟩ :: after) ∧
      tokensOf before = ts ∧ tokensStarting (before.length + 1) body = toks := by
  have spelled : ms.map Mark.symbol = ts.flatMap Token.spell
      ++ .opening :: (toks.flatMap Token.spell ++ .closing :: ts'.flatMap Token.spell) := by
    have valid := (tokensOf_canonical ms).valid
    have one := Token.spell_of_not_isRun (valid opening (by simp [split])) (by rw [ho]; rfl)
    have two := Token.spell_of_not_isRun (valid closing (by simp [split])) (by rw [hc]; rfl)
    rw [← spell_tokensOf, split]
    simp [one, two, ho, hc]
  obtain ⟨before, fromOpening, rfl, spellBefore, e₁⟩ := List.map_eq_append_iff.1 spelled
  obtain ⟨⟨_, a⟩, inside, rfl, rfl, e₂⟩ := List.map_eq_cons_iff.1 e₁
  obtain ⟨body, fromClosing, rfl, spellBody, e₃⟩ := List.map_eq_append_iff.1 e₂
  obtain ⟨⟨_, b⟩, after, rfl, rfl, -⟩ := List.map_eq_cons_iff.1 e₃
  -- the tokens of these symbols are the given ones, for they are split at the same places of the text
  have placed := Scan.placed_ofMarks (before ++ ⟨.opening, a⟩ :: (body ++ ⟨.closing, b⟩ :: after))
  have split' := tokensOf_loop before body after a b
  have same : Scan.lengthOf ts = Scan.lengthOf (tokensOf before) := by
    rw [Scan.lengthOf, Scan.lengthOf, spell_tokensOf, spellBefore]
  obtain ⟨rfl, rest⟩ := placed.split_unique split split' same
  obtain ⟨rfl, -⟩ := List.cons.inj rest
  have regroup (o t : Token) (l r : List Token) : tokensOf before ++ o :: (l ++ t :: r)
      = (tokensOf before ++ o :: l) ++ t :: r := by simp
  have same' : Scan.lengthOf (tokensOf before ++ ⟨.opening, 1, before.length, a⟩ :: toks) = Scan.lengthOf
      (tokensOf before ++ ⟨.opening, 1, before.length, a⟩ :: tokensStarting (before.length + 1) body) := by
    rw [Scan.lengthOf_append, Scan.lengthOf_append, Scan.lengthOf_cons, Scan.lengthOf_cons, Scan.lengthOf,
      Scan.lengthOf, Scan.lengthOf, spell_tokensStarting, spellBody]
  obtain ⟨inner, rest⟩ := placed.split_unique (split.trans (regroup ..)) (split'.trans (regroup ..)) same'
  obtain ⟨rfl, -⟩ := List.cons.inj rest
  exact ⟨before, body, after, rfl, rfl, (List.cons.inj (List.append_cancel_left inner)).2.symm⟩

/-! ### Positions -/

theorem le_position {n : Nat} {source : List UInt8} {m : Mark} (h : m ∈ marksFrom n source) : n ≤ m.position := by
  induction source generalizing n with
  | nil => cases h
  | cons byte rest ih =>
    unfold marksFrom at h
    split at h
    · rcases List.mem_cons.1 h with rfl | h
      · exact Nat.le_refl n
      · exact Nat.le_of_succ_le (ih h)
    · exact Nat.le_of_succ_le (ih h)

theorem marksFrom_sorted (n : Nat) (source : List UInt8) :
    (marksFrom n source).Pairwise fun m l => m.position < l.position := by
  induction source generalizing n with
  | nil => exact .nil
  | cons byte rest ih =>
    unfold marksFrom
    split
    · exact .cons (fun m hm => le_position hm) (ih (n + 1))
    · exact ih (n + 1)

variable {source : List UInt8} {before body after : List Mark} {a b : Nat}

/-- The tokens between the brackets of a loop are those that start between them. -/
theorem tokensIn_loop (split : marks source = before ++ ⟨.opening, a⟩ :: (body ++ ⟨.closing, b⟩ :: after)) :
    (Scan.ofMarks (marks source)).tokensIn a b = tokensStarting (before.length + 1) body := by
  have sorted := marksFrom_sorted 0 source
  rw [← marks, split, List.pairwise_append, List.pairwise_cons, List.pairwise_append, List.pairwise_cons] at sorted
  obtain ⟨-, ⟨behindOpening, -, ⟨behindClosing, -⟩, beforeClosing⟩, beforeOpening⟩ := sorted
  have outside : ∀ t ∈ tokensOf before, t.position < a := by
    intro t ht
    rw [tokensOf_eq] at ht
    obtain ⟨m, hm, -, e⟩ := mark_of_mem_tokensStarting ht
    rw [← e]
    exact beforeOpening m hm ⟨.opening, a⟩ (by simp)
  have inside : ∀ t ∈ tokensStarting (before.length + 1) body, a < t.position ∧ t.position < b := by
    intro t ht
    obtain ⟨m, hm, -, e⟩ := mark_of_mem_tokensStarting ht
    rw [← e]
    exact ⟨behindOpening m (by simp [hm]), beforeClosing m hm ⟨.closing, b⟩ (by simp)⟩
  have behind : ∀ t ∈ tokensStarting (before.length + 1 + body.length + 1) after, b < t.position := by
    intro t ht
    obtain ⟨m, hm, -, e⟩ := mark_of_mem_tokensStarting ht
    rw [← e]
    exact behindClosing m hm
  have tokens : (Scan.ofMarks (marks source)).tokens = _ := (congrArg tokensOf split).trans (tokensOf_loop ..)
  have none : (tokensOf before).filter (fun t => a < t.position ∧ t.position < b) = [] := by
    rw [List.filter_eq_nil_iff]
    intro t ht
    have := outside t ht
    simp
    omega
  have all : (tokensStarting (before.length + 1) body).filter (fun t => a < t.position ∧ t.position < b)
      = tokensStarting (before.length + 1) body := by
    rw [List.filter_eq_self]
    intro t ht
    simpa using inside t ht
  have none' : (tokensStarting (before.length + 1 + body.length + 1) after).filter
      (fun t => a < t.position ∧ t.position < b) = [] := by
    rw [List.filter_eq_nil_iff]
    intro t ht
    have := behind t ht
    simp
    omega
  rw [Scan.tokensIn, tokens, List.filter_append, none, List.filter_cons_of_neg (by simp), List.filter_append, all,
    List.filter_cons_of_neg (by simp), none', List.nil_append, List.append_nil]

/-- A loop whose brackets come later among the tokens stands later in the text. -/
theorem position_le_of_length_le {before' later later' : List Mark} {a' : Nat}
    (split : marks source = before ++ ⟨.opening, a⟩ :: later)
    (split' : marks source = before' ++ ⟨.opening, a'⟩ :: later')
    (first : (tokensOf before).length ≤ (tokensOf before').length) : a ≤ a' := by
  have sorted := marksFrom_sorted 0 source
  rw [← marks, split, List.pairwise_append, List.pairwise_cons] at sorted
  obtain ⟨-, ⟨behind, -⟩, -⟩ := sorted
  rcases List.append_eq_append_iff.1 (split.symm.trans split') with ⟨c, rfl, e⟩ | ⟨c, rfl, e⟩
  · cases c with
    | nil =>
      cases e
      exact Nat.le_refl a
    | cons m c =>
      obtain ⟨rfl, rfl⟩ := List.cons.inj e
      exact Nat.le_of_lt (behind ⟨.opening, a'⟩ (by simp))
  · cases c with
    | nil =>
      cases e
      exact Nat.le_refl a
    | cons m c =>
      -- the other `[` is among the symbols before the first one
      obtain ⟨rfl, rfl⟩ := List.cons.inj e
      rw [tokensOf_eq, tokensStarting_append rfl, ← tokensOf_eq, List.length_append, List.length_cons] at first
      omega

/-! ### The first loop in the text that goes too far -/

/-- A loop that goes too far is rejected, though maybe not as the first one. -/
theorem rejectionAt?_of_marks (split : marks source = before ++ ⟨.opening, a⟩ :: (body ++ ⟨.closing, b⟩ :: after))
    (plain : ∀ m ∈ body, m.symbol.isRun = true)
    (far : ∃ l, l <+: body ∧ ¬ FitsByte (cursorOf (l.map Mark.symbol))) :
    ∃ e, (Scan.ofMarks (marks source)).rejectionAt? (tokensOf before).length = some e := by
  have tokens : (Scan.ofMarks (marks source)).tokens = _ := (congrArg tokensOf split).trans (tokensOf_loop ..)
  have plain' : ∀ t ∈ tokensStarting (before.length + 1) body, t.symbol.isRun = true := by
    intro t ht
    obtain ⟨m, hm, e, -⟩ := mark_of_mem_tokensStarting ht
    rw [← e]
    exact plain m hm
  obtain ⟨l, part, out⟩ := far
  have some : (farOffset? (tokensStarting (before.length + 1) body)).isSome = true := by
    rw [farOffset?_isSome_iff plain', spell_tokensStarting]
    exact ⟨l.map Mark.symbol, part.map Mark.symbol, out⟩
  obtain ⟨e, found⟩ := Option.isSome_iff_exists.1 some
  refine ⟨e, (Scan.placed_ofMarks _).rejectionAt?_eq_some_iff.2 ?_⟩
  exact ⟨_, _, _, _, _, tokens, rfl, rfl, rfl, found⟩

/-- A loop that is rejected goes too far. -/
theorem marks_of_rejectionAt? {i : Nat} {e : SourceError}
    (h : (Scan.ofMarks (marks source)).rejectionAt? i = some e) :
    ∃ before body after a b, marks source = before ++ ⟨.opening, a⟩ :: (body ++ ⟨.closing, b⟩ :: after) ∧
      (tokensOf before).length = i ∧ FarLoop source a b ∧
      farOffset? ((Scan.ofMarks (marks source)).tokensIn a b) = some e := by
  obtain ⟨ts, opening, toks, closing, ts', split, rfl, ho, hc, far⟩ :=
    (Scan.placed_ofMarks _).rejectionAt?_eq_some_iff.1 h
  obtain ⟨before, body, after, split', rfl, rfl⟩ := marks_of_tokensOf split ho hc
  have plain := isRun_of_farOffset? far
  have plain' : ∀ m ∈ body, m.symbol.isRun = true := by
    intro m hm
    have spelled : m.symbol ∈ (tokensStarting (before.length + 1) body).flatMap Token.spell := by
      rw [spell_tokensStarting]
      exact List.mem_map_of_mem hm
    obtain ⟨t, ht, mem⟩ := List.mem_flatMap.1 spelled
    rw [List.eq_of_mem_replicate mem]
    exact plain t ht
  obtain ⟨l, part, out⟩ := (farOffset?_isSome_iff plain).1 (Option.isSome_iff_exists.2 ⟨e, far⟩)
  rw [spell_tokensStarting] at part
  obtain ⟨l, inside, rfl⟩ := List.prefix_map_iff.1 part
  refine ⟨before, body, after, _, _, split', rfl, ⟨before, body, after, split', plain', l, inside, out⟩, ?_⟩
  rw [tokensIn_loop split', far]

private theorem first_of_findSome? {e : SourceError} {f : Nat → Option SourceError} {n : Nat}
    (h : (List.range' 0 n).findSome? f = some e) : ∃ i, f i = some e ∧ ∀ j < i, f j = none := by
  obtain ⟨l, i, l', split, here, none⟩ := List.findSome?_eq_some_iff.1 h
  obtain ⟨k, -, rfl, rest⟩ := List.range'_eq_append_iff.1 split
  obtain ⟨rfl, -⟩ := List.range'_eq_cons_iff.1 rest.symm
  refine ⟨_, here, fun j hj => none j ?_⟩
  rw [List.mem_range'_1]
  omega

variable {o : Optimizations} {scan : Scan}

theorem has_ofSource (accepted : Scan.ofSource source = .ok scan) :
    scan.Has 0 (Outline.ofSource source) ∧ (Outline.ofSource source).tokens = scan.tokens := by
  have brackets := Brackets.scan_eq_ok_iff.1 ⟨scan, accepted⟩
  obtain rfl := Scan.eq_ofMarks accepted
  have tokens := Outline.tokens_ofSource brackets
  refine ⟨⟨Scan.placed_ofMarks _, Outline.regular_ofSource brackets, [], [], ?_, rfl⟩, tokens⟩
  rw [tokens, List.nil_append, List.append_nil]
  rfl

theorem ofSource_eq_lower (accepted : Scan.ofSource source = .ok scan) :
    Program.ofSource o source = (Outline.ofSource source).lower o := by
  rw [Program.ofSource, accepted, Scan.eq_ofMarks accepted]
  rfl

/-- Going from token to token ends, never slips, and gives what the text is translated to. -/
theorem walk_ofSource (accepted : Scan.ofSource source = .ok scan) :
    scan.walk o (scan.tokens.length + 1) 0 scan.tokens.length = (Program.ofSource o source).mapError .rejected := by
  obtain ⟨has, tokens⟩ := has_ofSource accepted
  have walk := has.walk_eq_lower (o := o) (Nat.lt_succ_self _)
  rwa [Nat.zero_add, tokens, ← ofSource_eq_lower accepted] at walk

theorem ofSource_eq_error_iff (accepted : Scan.ofSource source = .ok scan) (e : SourceError) :
    Program.ofSource o source = .error e ↔ o.closedForms = true ∧
      (List.range' 0 scan.tokens.length).findSome? scan.rejectionAt? = some e := by
  obtain ⟨has, tokens⟩ := has_ofSource accepted
  rw [ofSource_eq_lower accepted, Outline.lower_eq_error_iff has.regular, has.rejection?, tokens]

theorem fails_iff (accepted : Scan.ofSource source = .ok scan) :
    (∃ e, Program.ofSource o source = .error e) ↔ o.closedForms = true ∧ ∃ a b, FarLoop source a b := by
  constructor
  · rintro ⟨e, failed⟩
    obtain ⟨closed, found⟩ := (ofSource_eq_error_iff accepted e).1 failed
    obtain ⟨i, -, here⟩ := List.exists_of_findSome?_eq_some found
    rw [Scan.eq_ofMarks accepted] at here
    obtain ⟨_, _, _, a, b, -, -, far, -⟩ := marks_of_rejectionAt? here
    exact ⟨closed, a, b, far⟩
  · rintro ⟨closed, a, b, before, body, after, split, plain, far⟩
    obtain ⟨e, here⟩ := rejectionAt?_of_marks split plain far
    rw [← Scan.eq_ofMarks accepted] at here
    have some : ((List.range' 0 scan.tokens.length).findSome? scan.rejectionAt?).isSome = true := by
      rw [List.findSome?_isSome_iff]
      refine ⟨_, ?_, Option.isSome_iff_exists.2 ⟨e, here⟩⟩
      rw [List.mem_range'_1, Nat.zero_add]
      exact ⟨Nat.zero_le _, (has_ofSource accepted).1.placed.lt_of_rejectionAt? here⟩
    obtain ⟨e, found⟩ := Option.isSome_iff_exists.1 some
    exact ⟨e, (ofSource_eq_error_iff accepted e).2 ⟨closed, found⟩⟩

theorem firstFarLoop_of_error {e : SourceError} (accepted : Scan.ofSource source = .ok scan)
    (failed : Program.ofSource o source = .error e) :
    ∃ a b t offset, FirstFarLoop source a b ∧ Leaves (scan.tokensIn a b) t offset ∧
      e = .farOffset t.position offset := by
  obtain ⟨i, here, none⟩ := first_of_findSome? ((ofSource_eq_error_iff accepted e).1 failed).2
  rw [Scan.eq_ofMarks accepted] at here none ⊢
  obtain ⟨before, body, after, a, b, split, rfl, far, found⟩ := marks_of_rejectionAt? here
  obtain ⟨t, offset, leaves, rfl⟩ := leaves_of_farOffset? found
  refine ⟨a, b, t, offset, ⟨far, ?_⟩, leaves, rfl⟩
  rintro a' b' ⟨before', body', after', split', plain, far'⟩
  obtain ⟨e', here'⟩ := rejectionAt?_of_marks split' plain far'
  have notEarlier : (tokensOf before).length ≤ (tokensOf before').length := by
    by_contra earlier
    have := none _ (Nat.lt_of_not_le earlier)
    rw [here'] at this
    cases this
  exact position_le_of_length_le split split' notEarlier

/-- If the brackets of a text are not in order, that is reported.  Otherwise going from token to token ends, never
slips, and gives what the text is translated to; the translation fails if and only if closed forms are wanted and the
text has a loop that only moves and adds and goes too far, and the error names the move with which the first such loop
goes too far, and where that leads.  Whether idioms are replaced makes no difference to the error. -/
theorem fails_iff_far_loop (o : Optimizations) (source : List UInt8) :
    (∀ e, Scan.ofSource source = .error e → Program.ofSource o source = .error e) ∧
    (∀ scan, Scan.ofSource source = .ok scan →
      scan.walk o (scan.tokens.length + 1) 0 scan.tokens.length = (Program.ofSource o source).mapError .rejected ∧
      ((∃ e, Program.ofSource o source = .error e) ↔ o.closedForms = true ∧ ∃ a b, FarLoop source a b) ∧
      ∀ e, Program.ofSource o source = .error e → ∃ a b t offset, FirstFarLoop source a b ∧
        Leaves (scan.tokensIn a b) t offset ∧ e = .farOffset t.position offset) ∧
    ∀ idioms e,
      Program.ofSource ⟨idioms, o.closedForms⟩ source = .error e ↔ Program.ofSource o source = .error e := by
  have misplaced (o : Optimizations) (e : SourceError) (rejected : Scan.ofSource source = .error e) :
      Program.ofSource o source = .error e := by
    rw [Program.ofSource, rejected]
    rfl
  refine ⟨misplaced o, ?_, ?_⟩
  · intro scan accepted
    exact ⟨walk_ofSource accepted, fails_iff accepted, fun e => firstFarLoop_of_error accepted⟩
  · intro idioms e
    cases accepted : Scan.ofSource source with
    | error e' => rw [misplaced _ e' accepted, misplaced _ e' accepted]
    | ok scan => rw [ofSource_eq_error_iff accepted, ofSource_eq_error_iff accepted]

set_option maxRecDepth 4000 in
/-- A run of 300 moves is two tokens, and the first of them already leads too far. -/
example : Program.ofSource .all (Idiom.spelling (.opening :: List.replicate 300 .right ++ [.closing]))
    = .error (.farOffset 1 255) := by
  rfl

end TapeLang
