import Mathlib.Algebra.GroupWithZero.Nat
import TapeLang.Proofs.Comments
import TapeLang.Proofs.WellFormed

/-!
# Scans are exact

The tokens of an accepted text are the canonical run-length encoding of the text without comments, each at the place
where its first symbol stands, and the partner of a bracket is the one that the grammar gives it
(`scan_is_exact`).

Brackets are looked at in three ways.  The grammar says what a balanced text is (`Balanced`), `Closes` goes through a
text and counts what is open, as the scan does, and `Brackets.balance` is a number that adds up.  The first two agree
(`balanced_iff_closes`), and the third shows that no two pairs cross (`Scan.partner?_nested`).
-/

namespace TapeLang

/-- Symbols among which every bracket has its partner. -/
inductive Balanced : List Symbol → Prop
  | done : Balanced []
  | other {s : Symbol} {rest : List Symbol} : s ≠ .opening → s ≠ .closing → Balanced rest → Balanced (s :: rest)
  | loop {body rest : List Symbol} : Balanced body → Balanced rest → Balanced (.opening :: (body ++ .closing :: rest))

/-- Balanced but for so many brackets that close something before. -/
inductive Interrupted : Nat → List Symbol → Prop
  | last {l : List Symbol} : Balanced l → Interrupted 0 l
  | closing {depth : Nat} {l rest : List Symbol} :
    Balanced l → Interrupted depth rest → Interrupted (depth + 1) (l ++ .closing :: rest)

variable {l l' : List Symbol} {depth : Nat}

/-! ### The grammar of brackets -/

theorem closes_other {s : Symbol} (ho : s ≠ .opening) (hc : s ≠ .closing) : Closes depth (s :: l) ↔ Closes depth l :=
  closes_of_not_bracket ho hc (n := 1)

/-- Balanced symbols leave open what was open. -/
theorem Balanced.closes_append (h : Balanced l) : Closes depth (l ++ l') ↔ Closes depth l' := by
  induction h generalizing depth l' with
  | done => rfl
  | other ho hc _ ih => rw [List.cons_append, closes_other ho hc, ih]
  | @loop body rest _ _ ihBody ihRest =>
    have inner : Closes (depth + 1) (body ++ .closing :: (rest ++ l')) ↔ Closes depth (rest ++ l') := ihBody
    have outer : (.opening :: (body ++ .closing :: rest)) ++ l' = .opening :: (body ++ .closing :: (rest ++ l')) := by
      simp
    rw [outer]
    exact inner.trans ihRest

theorem Interrupted.other {s : Symbol} (ho : s ≠ .opening) (hc : s ≠ .closing) (h : Interrupted depth l) :
    Interrupted depth (s :: l) := by
  cases h with
  | last balanced => exact .last (.other ho hc balanced)
  | closing balanced later => exact .closing (.other ho hc balanced) later

/-- A bracket before the rest takes the first one of those that close something before. -/
theorem Interrupted.opening (h : Interrupted (depth + 1) l) : Interrupted depth (.opening :: l) := by
  cases h with
  | @closing _ body _ inner later =>
    cases later with
    | last balanced => exact .last (.loop inner balanced)
    | @closing _ next rest balanced later =>
      have text : .opening :: (body ++ .closing :: (next ++ .closing :: rest))
          = (.opening :: (body ++ .closing :: next)) ++ .closing :: rest := by simp
      rw [text]
      exact .closing (.loop inner balanced) later

theorem interrupted_of_closes (h : Closes depth l) : Interrupted depth l := by
  induction l generalizing depth with
  | nil =>
    obtain rfl : depth = 0 := h
    exact .last .done
  | cons s l ih =>
    cases s with
    | opening => exact (ih h).opening
    | closing =>
      cases depth with
      | zero => exact h.elim
      | succ outer => exact .closing .done (ih h)
    | _ => exact (ih h).other (by decide) (by decide)

/-- What the scan accepts by counting is what the grammar says. -/
theorem balanced_iff_closes : Balanced l ↔ Closes 0 l := by
  constructor
  · intro h
    have same : Closes 0 (l ++ []) ↔ Closes 0 [] := h.closes_append
    rw [List.append_nil] at same
    exact same.2 rfl
  · intro h
    cases interrupted_of_closes h with
    | last balanced => exact balanced

/-- Before every bracket that closes a loop stands the rest of that loop. -/
theorem Balanced.split_closing {before after : List Symbol} (h : Balanced (before ++ .closing :: after)) :
    ∃ rest body, before = rest ++ .opening :: body ∧ Balanced body := by
  generalize text : before ++ .closing :: after = l at h
  induction h generalizing before after with
  | done => simp at text
  | other _ hc _ ih =>
    cases before with
    | nil => exact absurd (List.cons.inj text).1.symm hc
    | cons s before =>
      obtain ⟨rfl, later⟩ := List.cons.inj text
      obtain ⟨rest, body, rfl, balanced⟩ := ih later
      exact ⟨_ :: rest, body, rfl, balanced⟩
  | @loop inner rest inside _ ihInner ihRest =>
    cases before with
    | nil => cases text
    | cons s before =>
      obtain ⟨rfl, later⟩ := List.cons.inj text
      -- the bracket stands in the loop, closes it, or stands behind it
      rcases List.append_eq_append_iff.1 later with ⟨c, rfl, e⟩ | ⟨c, rfl, e⟩
      · cases c with
        | nil => exact ⟨[], before, rfl, by simpa using inside⟩
        | cons s c =>
          obtain ⟨rfl, -⟩ := List.cons.inj e
          obtain ⟨front, body, rfl, balanced⟩ := ihInner rfl
          exact ⟨_ :: front, body, rfl, balanced⟩
      · cases c with
        | nil => exact ⟨[], inner, by simp, inside⟩
        | cons s c =>
          obtain ⟨rfl, behind⟩ := List.cons.inj e
          obtain ⟨front, body, rfl, balanced⟩ := ihRest behind.symm
          exact ⟨.opening :: (inner ++ .closing :: front), body, by simp, balanced⟩

/-! ### The balance -/

namespace Brackets

/-- Behind some of the symbols so many loops are open as those have opened and not closed. -/
theorem exists_closes_of_append (h : Closes depth (l ++ l')) :
    ∃ outer : Nat, Closes outer l' ∧ balance l = outer - depth := by
  induction l generalizing depth with
  | nil => exact ⟨depth, h, (Int.sub_self _).symm⟩
  | cons s l ih =>
    cases s with
    | opening =>
      have inner : Closes (depth + 1) (l ++ l') := h
      obtain ⟨outer, later, total⟩ := ih inner
      refine ⟨outer, later, ?_⟩
      rw [balance_opening, total]
      omega
    | closing =>
      cases depth with
      | zero => exact h.elim
      | succ depth =>
        have inner : Closes depth (l ++ l') := h
        obtain ⟨outer, later, total⟩ := ih inner
        refine ⟨outer, later, ?_⟩
        rw [balance_closing, total]
        omega
    | _ =>
      have inner : Closes depth (l ++ l') := h
      obtain ⟨outer, later, total⟩ := ih inner
      exact ⟨outer, later, by simpa [balance] using total⟩

end Brackets

open Brackets (balance balance_append balance_opening exists_closes_of_append)

/-- Every bracket that opens a loop is followed by the rest of that loop. -/
theorem Balanced.split_opening {before after : List Symbol} (h : Balanced (before ++ .opening :: after)) :
    ∃ body rest, after = body ++ .closing :: rest ∧ Balanced body := by
  obtain ⟨outer, later, -⟩ := exists_closes_of_append (balanced_iff_closes.1 h)
  have inside : Closes (outer + 1) after := later
  cases interrupted_of_closes inside with
  | @closing _ body rest balanced _ => exact ⟨body, rest, rfl, balanced⟩

theorem Balanced.balance_eq (h : Balanced l) : balance l = 0 := by
  rw [← List.append_nil l] at h
  obtain ⟨outer, closed, total⟩ := exists_closes_of_append (balanced_iff_closes.1 h)
  obtain rfl : outer = 0 := closed
  exact total

/-- However much of the symbols is taken, no more is closed than was opened. -/
theorem Balanced.balance_prefix_nonneg (h : Balanced l') (part : l <+: l') : 0 ≤ balance l := by
  obtain ⟨rest, rfl⟩ := part
  obtain ⟨outer, -, total⟩ := exists_closes_of_append (balanced_iff_closes.1 h)
  omega

/-! ### Partners -/

namespace Scan

variable {s : Scan} {i j k m : Nat} {t : Token}

/-- The search stops at a `]` if the loops open before are just closed there. -/
theorem closingFrom_append_iff {body after : List Token} {closing : Token} (hc : closing.symbol = .closing) :
    closingFrom depth i (body ++ closing :: after) = some (i + body.length) ↔
      Closes depth (body.map Token.symbol) := by
  induction body generalizing depth i with
  | nil =>
    rw [List.nil_append, closingFrom.eq_def]
    simp only [hc]
    cases depth with
    | zero => simp [Closes]
    | succ outer =>
      have beyond : closingFrom outer (i + 1) after ≠ some (i + 0) := by
        intro found
        obtain ⟨_, _, _, _, _, index⟩ := closingFrom_eq_some found
        omega
      simpa [Closes] using beyond
  | cons t body ih =>
    have index : i + (t :: body).length = i + 1 + body.length := by
      rw [List.length_cons]
      omega
    rw [List.cons_append, index, closingFrom.eq_def]
    rcases t with ⟨symbol, count, start, position⟩
    cases symbol with
    | closing =>
      cases depth with
      | zero =>
        simp [Closes]
        omega
      | succ outer => exact ih
    | _ => exact ih

/-- The partner of a `[` is the `]` up to which the brackets are balanced. -/
theorem Placed.partner?_eq_some_iff (placed : s.Placed) :
    s.partner? i = some j ↔ ∃ before opening body closing after,
      s.tokens = before ++ opening :: (body ++ closing :: after) ∧ before.length = i ∧ i + 1 + body.length = j ∧
      opening.symbol = .opening ∧ closing.symbol = .closing ∧ Balanced (body.map Token.symbol) := by
  rw [placed.partner]
  constructor
  · intro h
    unfold closer? at h
    split at h
    · next count start position rest drop =>
      obtain ⟨body, closing, after, rfl, hc, rfl⟩ := closingFrom_eq_some h
      have nonempty := congrArg List.length drop
      rw [List.length_drop, List.length_cons] at nonempty
      refine ⟨s.tokens.take i, ⟨.opening, count, start, position⟩, body, closing, after, ?_, ?_, rfl, rfl, hc, ?_⟩
      · rw [← drop, List.take_append_drop]
      · rw [List.length_take]
        omega
      · exact balanced_iff_closes.2 ((closingFrom_append_iff hc).1 h)
    · cases h
  · rintro ⟨before, opening, body, closing, after, split, rfl, rfl, ho, hc, balanced⟩
    rw [closer?, split, List.drop_left]
    rcases opening with ⟨symbol, count, start, position⟩
    cases ho
    exact (closingFrom_append_iff hc).2 (balanced_iff_closes.1 balanced)

/-- The tokens strictly between two indices. -/
def between (s : Scan) (i j : Nat) : List Token := (s.tokens.take j).drop (i + 1)

theorem prefix_between (h : j ≤ k) : s.between i j <+: s.between i k := by
  rw [between, between, List.drop_take, List.drop_take]
  exact List.take_prefix_take_left (by omega)

theorem exists_split {ts : List Token} (here : ts[k]? = some t) :
    ∃ before after, ts = before ++ t :: after ∧ before.length = k := by
  obtain ⟨bound, rfl⟩ := List.getElem?_eq_some_iff.1 here
  refine ⟨ts.take k, ts.drop (k + 1), ?_, ?_⟩
  · rw [List.getElem_cons_drop, List.take_append_drop]
  · rw [List.length_take]
    omega

theorem between_split (hi : i < k) (hk : k < j) (here : s.tokens[k]? = some t) :
    s.between i j = s.between i k ++ t :: s.between k j := by
  obtain ⟨before, after, split, rfl⟩ := exists_split here
  obtain ⟨n, rfl⟩ := Nat.exists_eq_add_of_lt hk
  have behind : (t :: after).take (n + 1) = t :: after.take n := rfl
  have inside : (before ++ t :: after.take n).drop (before.length + 1) = after.take n := by
    rw [← List.drop_drop, List.drop_left]
    rfl
  rw [between, between, between, split, List.take_left, Nat.add_assoc, List.take_length_add_append, behind, inside,
    List.drop_append_of_le_length (by omega)]

/-- The partner by the index. -/
theorem Placed.partner?_eq_some_iff_getElem? (placed : s.Placed) :
    s.partner? i = some j ↔ (∃ t, s.tokens[i]? = some t ∧ t.symbol = .opening) ∧
      (∃ t, s.tokens[j]? = some t ∧ t.symbol = .closing) ∧ i < j ∧
      Balanced ((s.between i j).map Token.symbol) := by
  rw [placed.partner?_eq_some_iff]
  constructor
  · rintro ⟨before, opening, body, closing, after, split, rfl, rfl, ho, hc, balanced⟩
    have split' : s.tokens = (before ++ opening :: body) ++ closing :: after := by simp [split]
    have last : before.length + 1 + body.length = (before ++ opening :: body).length := by
      rw [List.length_append, List.length_cons]
      omega
    refine ⟨⟨opening, by simp [split], ho⟩, ⟨closing, ?_, hc⟩, by omega, ?_⟩
    · rw [last, split', List.getElem?_append_right (Nat.le_refl _), Nat.sub_self]
      rfl
    · rw [Scan.between, inside_eq split]
      exact balanced
  · rintro ⟨⟨opening, first, ho⟩, ⟨closing, last, hc⟩, lt, balanced⟩
    obtain ⟨front, after, split, rfl⟩ := exists_split last
    rw [split, List.getElem?_append_left lt] at first
    obtain ⟨before, body, rfl, rfl⟩ := exists_split first
    rw [List.append_assoc, List.cons_append] at split
    have index : (before ++ opening :: body).length = before.length + 1 + body.length := by
      rw [List.length_append, List.length_cons]
      omega
    rw [Scan.between, index, inside_eq split] at balanced
    exact ⟨before, opening, body, closing, after, split, rfl, index.symm, ho, hc, balanced⟩

/-! ### Pairs -/

section

variable (placed : s.Placed)
include placed

/-- Two pairs are nested or disjoint. -/
theorem Placed.partner?_nested (first : s.partner? i = some j) (second : s.partner? k = some m) (lt : i < k) :
    j < k ∨ m < j := by
  obtain ⟨-, ⟨closing, atJ, hc⟩, -, outer⟩ := placed.partner?_eq_some_iff_getElem?.1 first
  obtain ⟨⟨opening, atK, ho⟩, -, -, inner⟩ := placed.partner?_eq_some_iff_getElem?.1 second
  by_contra crossing
  have apart : k ≠ j := by
    rintro rfl
    cases atJ.symm.trans atK
    exact absurd (hc.symm.trans ho) (by decide)
  have inside : k < j := by omega
  -- if the second loop went on behind the first, it would be open at the end of the first one's body
  have whole : balance ((s.between i j).map Token.symbol) = 0 := outer.balance_eq
  rw [between_split lt inside atK, List.map_append, List.map_cons, ho, balance_append, balance_opening] at whole
  have before : 0 ≤ balance ((s.between i k).map Token.symbol) := by
    refine outer.balance_prefix_nonneg ?_
    exact (prefix_between (by omega)).map _
  have behind : 0 ≤ balance ((s.between k j).map Token.symbol) := by
    refine inner.balance_prefix_nonneg ?_
    exact (prefix_between (by omega)).map _
  omega

theorem Placed.not_lt_of_partner? (first : s.partner? i = some j) (second : s.partner? k = some j) : ¬ i < k := by
  intro lt
  obtain ⟨-, -, inside, -⟩ := placed.partner?_eq_some_iff_getElem?.1 second
  rcases placed.partner?_nested first second lt with behind | crossing
  · omega
  · omega

/-- In a balanced text every `]` has one `[`. -/
theorem Placed.existsUnique_partner? (balanced : Balanced (s.tokens.map Token.symbol)) (here : s.tokens[j]? = some t)
    (hc : t.symbol = .closing) : ∃! i, s.partner? i = some j := by
  obtain ⟨front, after, split, rfl⟩ := exists_split here
  rw [split, List.map_append, List.map_cons, hc] at balanced
  obtain ⟨_, _, text, inside⟩ := balanced.split_closing
  obtain ⟨before, rest, rfl, rfl, loop⟩ := List.map_eq_append_iff.1 text
  obtain ⟨opening, body, rfl, ho, rfl⟩ := List.map_eq_cons_iff.1 loop
  have partner : s.partner? before.length = some (before ++ opening :: body).length := by
    refine placed.partner?_eq_some_iff.2 ⟨before, opening, body, t, after, by simp [split], rfl, ?_, ho, hc, inside⟩
    rw [List.length_append, List.length_cons]
    omega
  refine ⟨before.length, partner, fun i other => ?_⟩
  have := placed.not_lt_of_partner? partner other
  have := placed.not_lt_of_partner? other partner
  omega

/-- In a balanced text every `[` has a partner. -/
theorem Placed.exists_partner? (balanced : Balanced (s.tokens.map Token.symbol)) (here : s.tokens[i]? = some t)
    (ho : t.symbol = .opening) : ∃ j, s.partner? i = some j := by
  obtain ⟨before, later, split, rfl⟩ := exists_split here
  rw [split, List.map_append, List.map_cons, ho] at balanced
  obtain ⟨_, _, text, inside⟩ := balanced.split_opening
  obtain ⟨body, rest, rfl, rfl, behind⟩ := List.map_eq_append_iff.1 text
  obtain ⟨closing, after, rfl, hc, rfl⟩ := List.map_eq_cons_iff.1 behind
  exact ⟨_, placed.partner?_eq_some_iff.2 ⟨before, t, body, closing, after, split, rfl, rfl, ho, hc, inside⟩⟩

end

end Scan

/-! ### Places -/

/-- A token that is not the run itself stands where one of the symbols behind the run stands. -/
theorem mark_of_mem_tokensFrom_start {run t : Token} {ms : List Mark} (h : t ∈ tokensFrom run ms) :
    (t.symbol = run.symbol ∧ t.start = run.start ∧ t.position = run.position) ∨
      ∃ k, ms[k]? = some ⟨t.symbol, t.position⟩ ∧ t.start = run.stop + k := by
  induction ms generalizing run with
  | nil =>
    obtain rfl := List.mem_singleton.1 h
    exact .inl ⟨rfl, rfl, rfl⟩
  | cons m ms ih =>
    have next (k : Nat) : run.stop + 1 + k = run.stop + (k + 1) := by omega
    unfold tokensFrom at h
    split at h
    · rcases ih h with same | ⟨k, here, start⟩
      · exact .inl same
      · exact .inr ⟨k + 1, here, start.trans (next k)⟩
    · rcases List.mem_cons.1 h with rfl | h
      · exact .inl ⟨rfl, rfl, rfl⟩
      · rcases ih h with ⟨symbol, start, position⟩ | ⟨k, here, start⟩
        · exact .inr ⟨0, by rw [symbol, position]; rfl, start⟩
        · exact .inr ⟨k + 1, here, start.trans (next k)⟩

theorem byte_of_mem_marksFrom {n : Nat} {source : List UInt8} {m : Mark} (h : m ∈ marksFrom n source) :
    ∃ p, m.position = n + p ∧ source[p]? = some m.symbol.toByte := by
  induction source generalizing n with
  | nil => cases h
  | cons byte rest ih =>
    have later (h : m ∈ marksFrom (n + 1) rest) :
        ∃ p, m.position = n + p ∧ (byte :: rest)[p]? = some m.symbol.toByte := by
      obtain ⟨p, position, here⟩ := ih h
      exact ⟨p + 1, by omega, here⟩
    unfold marksFrom at h
    split at h
    · next s found =>
      rcases List.mem_cons.1 h with rfl | h
      · exact ⟨0, rfl, congrArg some (Symbol.toByte_of_ofByte? found).symm⟩
      · exact later h
    · exact later h

/-- The first symbol of a token. -/
theorem mark_at_start {t : Token} {ms : List Mark} (h : t ∈ tokensOf ms) :
    ms[t.start]? = some ⟨t.symbol, t.position⟩ := by
  cases ms with
  | nil => cases h
  | cons m ms =>
    rcases mark_of_mem_tokensFrom_start h with ⟨symbol, start, position⟩ | ⟨k, here, start⟩
    · rw [symbol, start, position]
      rfl
    · have index : t.start = k + 1 := by
        rw [start, Token.stop, Nat.zero_add, Nat.add_comm]
      rw [index]
      exact here

/-- Positions are in the same order as starts. -/
theorem position_lt_of_start_lt {t u : Token} {source : List UInt8} (ht : t ∈ tokensOf (marks source))
    (hu : u ∈ tokensOf (marks source)) (lt : t.start < u.start) : t.position < u.position := by
  have sorted : (marks source).Pairwise fun m l => m.position < l.position := marksFrom_sorted 0 source
  obtain ⟨boundT, markT⟩ := List.getElem?_eq_some_iff.1 (mark_at_start ht)
  obtain ⟨boundU, markU⟩ := List.getElem?_eq_some_iff.1 (mark_at_start hu)
  have order := List.pairwise_iff_getElem.1 sorted t.start u.start boundT boundU lt
  rwa [markT, markU] at order

namespace Scan

variable {s : Scan} {i : Nat} {t : Token}

theorem lengthOf_eq_sum (ts : List Token) : lengthOf ts = (ts.map Token.count).sum := by
  induction ts with
  | nil => rfl
  | cons t ts ih => rw [lengthOf_cons, ih, List.map_cons, List.sum_cons]

theorem Placed.start_eq_sum (h : s.Placed) (here : s.tokens[i]? = some t) :
    t.start = ((s.tokens.take i).map Token.count).sum := by
  obtain ⟨before, after, split, rfl⟩ := exists_split here
  rw [h.start before t after split, lengthOf_eq_sum, split, List.take_left]

end Scan

/-! ### Accepted texts -/

theorem Symbol.isRun_iff (s : Symbol) : s.isRun = true ↔ s ∈ [.right, .left, .inc, .dec] := by
  cases s <;> decide

theorem Symbol.isRun_eq_false_iff (s : Symbol) : s.isRun = false ↔ s ∈ [.put, .get, .opening, .closing] := by
  cases s <;> decide

/-- A bracket stands alone, so it does not matter whether tokens are spelled out. -/
theorem closes_map_symbol {ts : List Token} (valid : ∀ t ∈ ts, t.Valid) :
    Closes depth (ts.map Token.symbol) ↔ Closes depth (ts.flatMap Token.spell) := by
  induction ts generalizing depth with
  | nil => rfl
  | cons t ts ih =>
    obtain ⟨here, later⟩ := List.forall_mem_cons.1 valid
    rw [List.map_cons, List.flatMap_cons]
    by_cases ho : t.symbol = .opening
    · rw [Token.spell_of_not_isRun here (by rw [ho]; rfl), ho]
      exact ih later
    · by_cases hc : t.symbol = .closing
      · rw [Token.spell_of_not_isRun here (by rw [hc]; rfl), hc]
        cases depth with
        | zero => rfl
        | succ outer => exact ih later
      · rw [Token.spell, closes_of_not_bracket ho hc, closes_other ho hc]
        exact ih later

theorem balanced_tokensOf {ms : List Mark} (h : checkBrackets [] ms = .ok ()) :
    Balanced ((tokensOf ms).map Token.symbol) := by
  rw [balanced_iff_closes, closes_map_symbol (tokensOf_canonical ms).valid, spell_tokensOf]
  exact closes_of_checkBrackets h

/-- A run that goes on in the next token is full. -/
theorem Canonical.count_eq {ts : List Token} {i : Nat} {t u : Token} (h : Canonical ts) (first : ts[i]? = some t)
    (second : ts[i + 1]? = some u) (same : t.symbol = u.symbol) (run : t.symbol.isRun = true) : t.count = maxRun := by
  obtain ⟨_, rfl⟩ := List.getElem?_eq_some_iff.1 first
  obtain ⟨bound, rfl⟩ := List.getElem?_eq_some_iff.1 second
  have small := (h.valid _ (List.mem_of_getElem? first)).small
  by_contra room
  exact h.full.getElem i bound ⟨same, same ▸ run, Nat.lt_of_le_of_ne small room⟩

namespace Scan

/-- The scan is the exact one of its text: its tokens are the text without comments in canonical runs, they say where
they stand, and brackets have the partners that the grammar gives them. -/
structure Exact (source : List UInt8) (s : Scan) : Prop where
  text : s.text = clean source
  spelled : (s.tokens.flatMap fun t => List.replicate t.count t.symbol.toByte) = clean source
  counted : ∀ t ∈ s.tokens, 1 ≤ t.count ∧ t.count ≤ 255
  /-- Output, input and brackets stand alone. -/
  single : ∀ t ∈ s.tokens, t.symbol ∈ [.put, .get, .opening, .closing] → t.count = 1
  /-- A run goes on in the next token only if the first one is full. -/
  full : ∀ i t u, s.tokens[i]? = some t → s.tokens[i + 1]? = some u → t.symbol = u.symbol →
    t.symbol ∈ [.right, .left, .inc, .dec] → t.count = 255
  start : ∀ i t, s.tokens[i]? = some t → t.start = ((s.tokens.take i).map Token.count).sum
  /-- The byte at the position is the symbol, and it becomes the byte at the start when comments are removed. -/
  position : ∀ t ∈ s.tokens, source[t.position]? = some t.symbol.toByte ∧ Becomes source t.position t.start
  ascending : s.tokens.Pairwise fun t u => t.position < u.position
  partner : ∀ i j, s.partner? i = some j ↔ (∃ t, s.tokens[i]? = some t ∧ t.symbol = .opening) ∧
    (∃ t, s.tokens[j]? = some t ∧ t.symbol = .closing) ∧ i < j ∧ Balanced ((s.between i j).map Token.symbol)
  openings : ∀ i t, s.tokens[i]? = some t → t.symbol = .opening → ∃ j, s.partner? i = some j
  closings : ∀ j t, s.tokens[j]? = some t → t.symbol = .closing → ∃! i, s.partner? i = some j
  nested : ∀ i j k m, s.partner? i = some j → s.partner? k = some m → i < k → j < k ∨ m < j

end Scan

/-- Every text that is accepted is scanned exactly. -/
theorem scan_is_exact {source : List UInt8} {scan : Scan} (h : Scan.ofSource source = .ok scan) :
    scan.Exact source := by
  have balanced := balanced_tokensOf (Brackets.scan_eq_ok_iff.1 ⟨scan, h⟩)
  have canonical := tokensOf_canonical (marks source)
  have placed := Scan.placed_ofMarks (marks source)
  obtain rfl := Scan.eq_ofMarks h
  have text : (Scan.ofMarks (marks source)).text = clean source := text_marksFrom 0 source
  refine ⟨text, ?_, ?_, ?_, ?_, fun i t => placed.start_eq_sum, ?_, ?_,
    fun i j => placed.partner?_eq_some_iff_getElem?, fun i t => placed.exists_partner? balanced,
    fun j t => placed.existsUnique_partner? balanced, fun i j k m => placed.partner?_nested⟩
  · rw [← text, placed.text, List.map_flatMap]
    simp only [Token.spell, List.map_replicate]
  · exact fun t mem => ⟨(canonical.valid t mem).pos, (canonical.valid t mem).small⟩
  · exact fun t mem symbol => (canonical.valid t mem).single ((Symbol.isRun_eq_false_iff _).2 symbol)
  · exact fun i t u first second same symbol => canonical.count_eq first second same ((Symbol.isRun_iff _).2 symbol)
  · intro t mem
    have mark := mark_at_start mem
    obtain ⟨p, position, here⟩ := byte_of_mem_marksFrom (List.mem_of_getElem? mark)
    obtain ⟨q, position', becomes⟩ := getElem?_marksFrom mark
    rw [Nat.zero_add] at position position'
    rw [← position] at here
    rw [← position'] at becomes
    exact ⟨here, becomes⟩
  · exact (List.pairwise_map.1 placed.pairwise_start).imp_of_mem fun memT memU => position_lt_of_start_lt memT memU

/-- `>[x[-]+].` behind 256 times `+`. -/
private def runAndPairs : List UInt8 :=
  List.replicate 256 '+'.toUInt8 ++ Idiom.spelling [.right, .opening] ++ 'x'.toUInt8
    :: Idiom.spelling [.opening, .dec, .closing, .inc, .closing, .put]

/-- A run that needs two tokens, and a loop in a loop with a comment between; the inner loop is filed first. -/
theorem scan_is_exact_nested :
    ∃ scan, Scan.ofSource runAndPairs = .ok scan ∧ scan.Exact runAndPairs ∧
      scan.tokens = [⟨.inc, 255, 0, 0⟩, ⟨.inc, 1, 255, 255⟩, ⟨.right, 1, 256, 256⟩, ⟨.opening, 1, 257, 257⟩,
        ⟨.opening, 1, 258, 259⟩, ⟨.dec, 1, 259, 260⟩, ⟨.closing, 1, 260, 261⟩, ⟨.inc, 1, 261, 262⟩,
        ⟨.closing, 1, 262, 263⟩, ⟨.put, 1, 263, 264⟩] ∧ scan.matching = [(3, 8), (4, 6)] := by
  have accepted : Scan.ofSource runAndPairs = .ok (Scan.ofMarks (marks runAndPairs)) := by decide +kernel
  exact ⟨_, accepted, scan_is_exact accepted, by decide +kernel, by decide +kernel⟩

end TapeLang
