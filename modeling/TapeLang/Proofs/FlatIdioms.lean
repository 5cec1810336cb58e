import TapeLang.Proofs.Catalogue
import TapeLang.Proofs.Outcomes
import TapeLang.Proofs.Rejection

/-!
# The flat part of the catalogue

A loop that only moves and adds is replaced by the same instruction whether it is found in the catalogue or
summarised, and the fragment `>[-<->]<` becomes the three instructions that it is anyway, only kept together as a
block.  So on a text without the three fragments that hold loops the catalogue makes no difference but for the blocks
(`flat_idioms_only_group`).
-/

namespace TapeLang

/-! ### Programs without their blocks -/

mutual

/-- The instruction with every block in it replaced by its body. -/
def Instruction.spliced : Instruction → Program
  | .block body => Program.spliced body
  | .loop body => [.loop (Program.spliced body)]
  | i => [i]

/-- The program with every block replaced in place by its body. -/
def Program.spliced : List Instruction → Program
  | [] => []
  | i :: rest => i.spliced ++ Program.spliced rest

end

private theorem map_spliced_cons {rest rest' : Except SourceError Program} (i : Instruction)
    (later : rest.map Program.spliced = rest'.map Program.spliced) :
    (rest.map (i :: ·)).map Program.spliced = (rest'.map (i :: ·)).map Program.spliced := by
  rcases eq_or_of_map_eq later with rfl | ⟨p, q, rfl, rfl, same⟩
  · rfl
  · simp only [Except.map, Program.spliced, same]

/-- If what comes first is the same but for the blocks, and what follows too, so is the whole. -/
private theorem map_spliced_bind {head head' : Except SourceError Instruction}
    {rest rest' : Except SourceError Program} (first : head.map Instruction.spliced = head'.map Instruction.spliced)
    (later : rest.map Program.spliced = rest'.map Program.spliced) :
    (head.bind fun i => rest.map (i :: ·)).map Program.spliced
      = (head'.bind fun i => rest'.map (i :: ·)).map Program.spliced := by
  rcases eq_or_of_map_eq first with rfl | ⟨i, j, rfl, rfl, same⟩
  · cases head with
    | error e => rfl
    | ok i => exact map_spliced_cons i later
  · refine (map_spliced_cons i later).trans ?_
    cases rest' with
    | error e => rfl
    | ok q => simp only [Except.bind, Except.map, Program.spliced, same]

/-! ### Loops -/

namespace Idiom

/-- The fragments of the catalogue that hold loops. -/
def nestedBodies : List (List Symbol) := [multiplyBody, exponentBody, divideBody]

end Idiom

/-- Loops that only move and add are summarised, and nothing is looked up in the catalogue. -/
def Optimizations.closedFormsOnly : Optimizations := ⟨false, true⟩

namespace Outline

variable {o : Optimizations} {x body rest : Outline}

/-- No loop of the outline is one of the fragments that hold loops. -/
def Flat : Outline → Prop
  | done => True
  | token _ rest => rest.Flat
  | loop _ _ body rest => (∀ symbols ∈ Idiom.nestedBodies, body.text ≠ Idiom.spelling symbols) ∧ body.Flat ∧ rest.Flat

/-- A summary does not depend on the places of the tokens. -/
theorem verdictOfSummary_of_text {symbols : List Symbol} {i : Instruction} (regular : body.Regular)
    (text : body.text = Idiom.spelling symbols) (h : verdictOfSummary (ofSymbols symbols).tokens = .replaced i) :
    verdictOfSummary body.tokens = .replaced i := by
  rw [← regular.bare_eq text, tokens_bare, verdictOfSummary_places Token.places_bare] at h
  cases hv : verdictOfSummary body.tokens with
  | replaced j =>
    rw [hv] at h
    exact h
  | rejected e =>
    rw [hv] at h
    cases h
  | kept =>
    rw [hv] at h
    cases h

/-- What the catalogue says about a loop without loops in it, its summary says. -/
theorem verdictOfSummary_of_idiom {form : ClosedForm} (regular : body.Regular)
    (flat : ∀ symbols ∈ Idiom.nestedBodies, body.text ≠ Idiom.spelling symbols)
    (h : Idiom.ofLoopBody? body.text = some form) : verdictOfSummary body.tokens = .replaced (.closed form) := by
  obtain ⟨entry, found, rfl⟩ := Option.map_eq_some_iff.1 h
  have matched := List.find?_some found
  have text : body.text = Idiom.spelling entry.1 := (beq_iff_eq.1 matched).symm
  rcases summary_of_mem_loopBodies entry (List.mem_of_find?_eq_some found) with summary | rfl | rfl | rfl
  · exact verdictOfSummary_of_text regular text summary
  · exact absurd text (flat _ (by simp [Idiom.nestedBodies]))
  · exact absurd text (flat _ (by simp [Idiom.nestedBodies]))
  · exact absurd text (flat _ (by simp [Idiom.nestedBodies]))

theorem lowerLoop_spliced (regular : body.Regular)
    (flat : ∀ symbols ∈ Idiom.nestedBodies, body.text ≠ Idiom.spelling symbols)
    (inside : (body.lower .all).map Program.spliced = (body.lower .closedFormsOnly).map Program.spliced) :
    (body.lowerLoop .all).map Instruction.spliced = (body.lowerLoop .closedFormsOnly).map Instruction.spliced := by
  have plain : body.verdict .closedFormsOnly = verdictOfSummary body.tokens := rfl
  cases found : Idiom.ofLoopBody? body.text with
  | some form =>
    have catalogued : body.verdict .all = .replaced (.closed form) := by
      simp only [verdict, Optimizations.all, found, if_true]
    rw [lowerLoop, lowerLoop, catalogued, plain, verdictOfSummary_of_idiom regular flat found]
  | none =>
    have missing : body.verdict .all = verdictOfSummary body.tokens := by
      simp only [verdict, Optimizations.all, found, if_true]
    rw [lowerLoop, lowerLoop, missing, plain]
    cases verdictOfSummary body.tokens with
    | replaced i => rfl
    | rejected e => rfl
    | kept =>
      simp only
      rcases eq_or_of_map_eq inside with same | ⟨p, q, hp, hq, same⟩
      · rw [same]
      · rw [hp, hq]
        simp only [Except.map, Instruction.spliced, same]

/-! ### Whole outlines -/

/-- Without the catalogue a token is lowered by itself, whatever follows. -/
theorem lower_token_of_plain (plain : o.idioms = false) (t : Token) (rest : Outline) :
    (token t rest).lower o = (rest.lower o).map (t.instruction :: ·) := by
  by_cases fragment : ∃ opening closing body after later, rest = loop opening closing body (token after later)
  · obtain ⟨opening, closing, body, after, later, rfl⟩ := fragment
    rw [lower, if_neg (by simp [plain])]
  · rw [lower]
    intro opening closing body after later e
    exact fragment ⟨opening, closing, body, after, later, e⟩

/-- The fragment `>[-<->]<`, lowered as three instructions. -/
theorem lower_subtraction_of_plain {before opening closing after : Token} (sub : IsSubtraction before body after)
    (regular : body.Regular) :
    (token before (loop opening closing body (token after rest))).lower .closedFormsOnly
      = (rest.lower .closedFormsOnly).map (Idiom.subtractionProgram ++ ·) := by
  obtain ⟨there, back⟩ := sub.moves
  have middle : verdictOfSummary body.tokens = .replaced (.closed (.transferSub (-1))) :=
    verdictOfSummary_of_text regular sub.2.1 rfl
  have lowered : body.lowerLoop .closedFormsOnly = .ok (.closed (.transferSub (-1))) := by
    rw [lowerLoop, show body.verdict .closedFormsOnly = _ from middle]
  rw [lower_token_of_plain rfl, lower_loop, lowered, lower_token_of_plain rfl, there, back]
  cases rest.lower .closedFormsOnly <;> rfl

theorem lower_spliced (regular : x.Regular) (flat : x.Flat) :
    (x.lower .all).map Program.spliced = (x.lower .closedFormsOnly).map Program.spliced := by
  fun_induction lower Optimizations.all x with
  | case1 => rfl
  | case2 before opening closing body after rest sub ih =>
    have later := ih regular.token.2.rest.token.2 flat.2.2
    rw [lower_subtraction_of_plain sub.2 regular.token.2.body]
    rcases eq_or_of_map_eq later with same | ⟨p, q, hp, hq, same⟩
    · rw [same]
      cases rest.lower .closedFormsOnly <;> rfl
    · rw [hp, hq]
      simp only [Except.map, Program.spliced, Instruction.spliced, Idiom.subtractionProgram, List.cons_append,
        List.nil_append, same]
  | case3 before opening closing body after rest sub ih =>
    rw [lower_token_of_plain rfl]
    exact map_spliced_cons before.instruction (ih regular.token.2 flat)
  | case4 t rest _ ih =>
    rw [lower_token_of_plain rfl]
    exact map_spliced_cons t.instruction (ih regular.token.2 flat)
  | case5 opening closing body rest lowered ihBody =>
    rename_i ihRest
    rw [lower_loop]
    have head : lowered = body.lowerLoop .all := rfl
    have inside := lowerLoop_spliced regular.body flat.1 (ihBody regular.body flat.2.1)
    rw [head]
    exact map_spliced_bind inside (ihRest regular.rest flat.2.2)

end Outline

/-! ### Texts -/

namespace Scan

/-- No loop of the text is one of the fragments that hold loops. -/
def Flat (s : Scan) : Prop :=
  ∀ pair ∈ s.pairs, ∀ symbols ∈ Idiom.nestedBodies, s.slice? (pair.1 + 1) pair.2 ≠ some (Idiom.spelling symbols)

instance (s : Scan) : Decidable s.Flat := inferInstanceAs (Decidable (∀ _ ∈ _, _))

variable {s : Scan} {i : Nat} {x : Outline}

theorem Has.mem_pairs {opening closing : Token} {body rest : Outline}
    (h : s.Has i (.loop opening closing body rest)) :
    (i, i + 1 + body.tokens.length) ∈ s.pairs := by
  refine List.mem_filterMap.2 ⟨i, ?_, ?_⟩
  · obtain ⟨placed, regular, before, after, split, rfl⟩ := h
    simp [split, Outline.tokens]
  · rw [h.partner?]
    rfl

theorem Has.slice? (h : s.Has i x) : s.slice? i (i + x.tokens.length) = some x.text := by
  have between := h.textBetween?
  unfold Scan.textBetween? at between
  split at between
  · exact between
  · cases between

theorem Has.flat (h : s.Has i x) (flat : s.Flat) : x.Flat := by
  induction x generalizing i with
  | done => trivial
  | token t rest ih => exact ih h.token.2
  | loop opening closing body rest ihBody ihRest =>
    refine ⟨?_, ihBody h.inside, ihRest h.past⟩
    intro symbols hs text
    exact flat _ h.mem_pairs symbols hs (h.inside.slice?.trans (congrArg some text))

end Scan

/-- On a text without the fragments that hold loops, the catalogue and the summaries of loops together report the same
error as the summaries alone, or they give the same program when the blocks are replaced by what they hold. -/
theorem flat_idioms_only_group (source : List UInt8) (flat : ∀ scan, Scan.ofSource source = .ok scan → scan.Flat) :
    (Program.ofSource .all source).map Program.spliced
      = (Program.ofSource .closedFormsOnly source).map Program.spliced := by
  cases accepted : Scan.ofSource source with
  | error e =>
    rw [Program.ofSource, Program.ofSource, accepted]
    rfl
  | ok scan =>
    obtain ⟨has, -⟩ := has_ofSource accepted
    rw [ofSource_eq_lower accepted, ofSource_eq_lower accepted]
    exact Outline.lower_spliced has.regular (has.flat (flat scan accepted))

/-- `[>[-<->]<.[->+>+<<]]` -/
private def subtractAndCopy : List UInt8 :=
  Idiom.spelling (.opening :: Idiom.subtraction ++ .put :: .opening :: Idiom.copyBody ++ [.closing, .closing])

/-- Inside a loop the fragment is a block with the catalogue, and three instructions without it. -/
theorem flat_idioms_only_group_subtraction :
    (∀ scan, Scan.ofSource subtractAndCopy = .ok scan → scan.Flat) ∧
      Program.ofSource .all subtractAndCopy
        = .ok [.loop [.block Idiom.subtractionProgram, .print, .closed (.weighted [(1, 1), (2, 1)])]] ∧
      Program.ofSource .closedFormsOnly subtractAndCopy
        = .ok [.loop [.move 1, .closed (.transferSub (-1)), .move (-1), .print,
          .closed (.weighted [(1, 1), (2, 1)])]] ∧
      (Program.ofSource .all subtractAndCopy).map Program.spliced
        = (Program.ofSource .closedFormsOnly subtractAndCopy).map Program.spliced := by
  have flat : ∀ scan, Scan.ofSource subtractAndCopy = .ok scan → scan.Flat := by
    intro scan accepted
    rw [Scan.eq_ofMarks accepted]
    decide
  exact ⟨flat, rfl, rfl, flat_idioms_only_group subtractAndCopy flat⟩

end TapeLang
