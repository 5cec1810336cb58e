import TapeLang.Lowering
import TapeLang.Proofs.Scanning

/-!
# Outlines of accepted texts

The outline of an accepted text has all of its tokens (`tokens_outline`), and an outline in which only brackets are
brackets can be told from its tokens (`Formed.ofTokens_tokens`).  Taken literally, an outline is a program
(`literal`), which is what lowering without optimizations gives (`lower_none`).
-/

namespace TapeLang

/-- From `depth` open loops on, every `]` closes one and none is left open. -/
def Closes (depth : Nat) : List Symbol → Prop
  | [] => depth = 0
  | s :: rest =>
    match s with
    | .opening => Closes (depth + 1) rest
    | .closing =>
      match depth with
      | 0 => False
      | outer + 1 => Closes outer rest
    | _ => Closes depth rest

theorem closes_of_checkBrackets {opened : List Nat} {ms : List Mark} (h : checkBrackets opened ms = .ok ()) :
    Closes opened.length (ms.map Mark.symbol) := by
  induction ms generalizing opened with
  | nil =>
    cases opened with
    | nil => rfl
    | cons p opened => cases h
  | cons m ms ih =>
    rcases m with ⟨symbol, position⟩
    cases symbol with
    | opening =>
      simp only [checkBrackets] at h
      split at h
      · exact ih h
      · cases h
    | closing =>
      cases opened with
      | nil => cases h
      | cons p opened => exact ih h
    | _ => exact ih h

theorem closes_of_not_bracket {s : Symbol} (ho : s ≠ .opening) (hc : s ≠ .closing) {depth : Nat} {n : Nat}
    {rest : List Symbol} : Closes depth (List.replicate n s ++ rest) ↔ Closes depth rest := by
  induction n with
  | zero => rfl
  | succ n ih =>
    rw [List.replicate_succ, List.cons_append, ← ih]
    cases s with
    | opening => exact absurd rfl ho
    | closing => exact absurd rfl hc
    | _ => rfl

namespace Outline

/-! ### Reading tokens -/

/-- Tokens that stand by themselves are no brackets, and a loop stands between its two brackets. -/
def Formed : Outline → Prop
  | done => True
  | token t rest => t.symbol ≠ .opening ∧ t.symbol ≠ .closing ∧ rest.Formed
  | loop o c body rest => o.symbol = .opening ∧ c.symbol = .closing ∧ body.Formed ∧ rest.Formed

theorem formed_read (ts : List Token) :
    (read ts).body.Formed ∧ ∀ w ∈ (read ts).waiting, w.1.symbol = .closing ∧ w.2.Formed := by
  induction ts with
  | nil => exact ⟨trivial, by simp [read]⟩
  | cons t ts ih =>
    show ((read ts).prepend t).body.Formed ∧ ∀ w ∈ ((read ts).prepend t).waiting, _
    obtain ⟨body, waiting⟩ := ih
    generalize read ts = r at body waiting
    rcases r with ⟨x, ws⟩
    rcases t with ⟨symbol, count, start, position⟩
    cases symbol with
    | closing =>
      refine ⟨trivial, ?_⟩
      intro w hw
      rcases List.mem_cons.1 hw with rfl | hw
      · exact ⟨rfl, body⟩
      · exact waiting w hw
    | opening =>
      cases ws with
      | nil => exact ⟨body, waiting⟩
      | cons w ws =>
        obtain ⟨hw, after⟩ := waiting w (by simp)
        exact ⟨⟨rfl, hw, body, after⟩, fun v hv => waiting v (List.mem_cons_of_mem _ hv)⟩
    | _ => exact ⟨⟨by simp, by simp, body⟩, waiting⟩

theorem formed_ofTokens (ts : List Token) : (ofTokens ts).Formed := (formed_read ts).1

/-- One outline after the other. -/
def append : Outline → Outline → Outline
  | done, y => y
  | token t rest, y => token t (rest.append y)
  | loop o c body rest, y => loop o c body (rest.append y)

theorem append_done (x : Outline) : x.append done = x := by
  induction x with
  | done => rfl
  | token t rest ih => rw [append, ih]
  | loop o c body rest _ ih => rw [append, ih]

theorem Reading.prepend_token {t : Token} (ho : t.symbol ≠ .opening) (hc : t.symbol ≠ .closing) (r : Reading) :
    r.prepend t = ⟨token t r.body, r.waiting⟩ := by
  unfold prepend
  split
  · next h => exact absurd h hc
  · next h => exact absurd h ho
  · rfl

theorem read_tokens_append {x : Outline} (h : x.Formed) (ts : List Token) :
    read (x.tokens ++ ts) = ⟨x.append (read ts).body, (read ts).waiting⟩ := by
  induction x generalizing ts with
  | done => rfl
  | token t rest ih =>
    obtain ⟨ho, hc, h⟩ := h
    show (read (rest.tokens ++ ts)).prepend t = _
    rw [ih h, Reading.prepend_token ho hc]
    rfl
  | loop o c body rest ihBody ihRest =>
    obtain ⟨ho, hc, hbody, hrest⟩ := h
    have e : tokens (loop o c body rest) ++ ts = o :: (body.tokens ++ (c :: (rest.tokens ++ ts))) := by
      simp [tokens]
    rw [e]
    show (read (body.tokens ++ (c :: (rest.tokens ++ ts)))).prepend o = _
    rw [ihBody hbody]
    have hread : read (c :: (rest.tokens ++ ts)) = ⟨done, (c, rest.append (read ts).body) :: (read ts).waiting⟩ := by
      show (read (rest.tokens ++ ts)).prepend c = _
      rw [ihRest hrest, Reading.prepend, hc]
    rw [hread, Reading.prepend, ho, append_done]
    rfl

/-- An outline can be told from its tokens. -/
theorem Formed.ofTokens_tokens {x : Outline} (h : x.Formed) : ofTokens x.tokens = x := by
  have hread := read_tokens_append h []
  rw [List.append_nil] at hread
  rw [ofTokens, hread]
  exact append_done x

/-- Where the brackets close, no token is lost. -/
theorem read_of_closes {depth : Nat} {ts : List Token} (valid : ∀ k ∈ ts, k.Valid)
    (h : Closes depth (ts.flatMap Token.spell)) : (read ts).waiting.length = depth ∧ (read ts).tokens = ts := by
  induction ts generalizing depth with
  | nil =>
    obtain rfl : depth = 0 := h
    exact ⟨rfl, rfl⟩
  | cons t ts ih =>
    have ih' : ∀ {d : Nat}, Closes d (ts.flatMap Token.spell) → _ :=
      fun {d} => @ih d fun k hk => valid k (List.mem_cons_of_mem _ hk)
    have ht := valid t (by simp)
    rw [List.flatMap_cons] at h
    show ((read ts).prepend t).waiting.length = depth ∧ ((read ts).prepend t).tokens = t :: ts
    by_cases ho : t.symbol = .opening
    · rw [Token.spell_of_not_isRun ht (by rw [ho]; rfl), ho] at h
      obtain ⟨hlen, htok⟩ := ih' h
      have hne : (read ts).waiting ≠ [] := List.ne_nil_of_length_eq_add_one hlen
      rw [Reading.tokens_prepend t _ fun _ => hne, htok]
      refine ⟨?_, rfl⟩
      rw [Reading.prepend, ho]
      cases hw : (read ts).waiting with
      | nil => exact absurd hw hne
      | cons w ws =>
        rw [hw] at hlen
        simpa using hlen
    · rw [Reading.tokens_prepend t _ fun h' => absurd h' ho]
      by_cases hc : t.symbol = .closing
      · rw [Token.spell_of_not_isRun ht (by rw [hc]; rfl), hc] at h
        cases depth with
        | zero => exact h.elim
        | succ outer =>
          obtain ⟨hlen, htok⟩ := ih' h
          rw [htok, Reading.prepend, hc]
          exact ⟨congrArg (· + 1) hlen, rfl⟩
      · rw [Token.spell, closes_of_not_bracket ho hc] at h
        obtain ⟨hlen, htok⟩ := ih' h
        rw [htok, Reading.prepend_token ho hc]
        exact ⟨hlen, rfl⟩

/-! ### Accepted texts -/

/-- The outline of a text. -/
def ofSource (source : List UInt8) : Outline := ofTokens (tokensOf (marks source))

/-- An outline as accepted texts have it. -/
structure Regular (x : Outline) : Prop where
  formed : x.Formed
  canonical : Canonical x.tokens

theorem tokens_ofSource {source : List UInt8} (h : checkBrackets [] (marks source) = .ok ()) :
    (ofSource source).tokens = tokensOf (marks source) := by
  have closes : Closes 0 ((tokensOf (marks source)).flatMap Token.spell) := by
    rw [spell_tokensOf]
    exact closes_of_checkBrackets h
  obtain ⟨hlen, htok⟩ := read_of_closes (tokensOf_canonical _).valid closes
  rw [Reading.tokens, List.eq_nil_of_length_eq_zero hlen, List.flatMap_nil, List.append_nil] at htok
  exact htok

theorem regular_ofSource {source : List UInt8} (h : checkBrackets [] (marks source) = .ok ()) :
    (ofSource source).Regular := by
  refine ⟨formed_ofTokens _, ?_⟩
  rw [tokens_ofSource h]
  exact tokensOf_canonical _

theorem Regular.token {t : Token} {rest : Outline} (h : (token t rest).Regular) : t.Valid ∧ rest.Regular :=
  ⟨h.canonical.valid t (by simp [tokens]), h.formed.2.2, h.canonical.part (List.suffix_cons t rest.tokens).isInfix⟩

theorem Regular.body {o c : Token} {body rest : Outline} (h : (loop o c body rest).Regular) : body.Regular :=
  ⟨h.formed.2.2.1, h.canonical.part ⟨[o], c :: rest.tokens, by simp [tokens]⟩⟩

theorem Regular.rest {o c : Token} {body rest : Outline} (h : (loop o c body rest).Regular) : rest.Regular :=
  ⟨h.formed.2.2.2, h.canonical.part ⟨o :: body.tokens ++ [c], [], by simp [tokens]⟩⟩

/-! ### The literal program -/

/-- The program that takes every token at its word. -/
def literal : Outline → Program
  | done => []
  | token t rest => t.instruction :: rest.literal
  | loop _ _ body rest => .loop body.literal :: rest.literal

theorem lower_none (x : Outline) : x.lower .none = .ok x.literal := by
  fun_induction lower Optimizations.none x with
  | case1 => rfl
  | case2 before o c body after rest h _ => exact absurd h.1 (by decide)
  | case3 before o c body after rest _ ih =>
    rw [ih]
    rfl
  | case4 t rest _ ih =>
    rw [ih]
    rfl
  | case5 o c body rest lowered ihBody ihRest =>
    have kept : lowered = .ok (.loop body.literal) := by
      show Except.map _ (lower .none body) = _
      rw [ihBody]
      rfl
    rw [kept, ihRest]
    rfl

end Outline

theorem Program.ofSource_eq_ok_iff {o : Optimizations} {source : List UInt8} {p : Program} :
    Program.ofSource o source = .ok p
      ↔ checkBrackets [] (marks source) = .ok () ∧ (Outline.ofSource source).lower o = .ok p := by
  rw [Program.ofSource, Scan.ofSource_eq]
  cases h : checkBrackets [] (marks source) with
  | error e => simp [Except.map, Except.bind]
  | ok _ => simp [Except.map, Except.bind, Scan.ofMarks, Outline.ofSource]

end TapeLang
