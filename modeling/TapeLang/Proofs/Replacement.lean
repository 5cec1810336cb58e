import TapeLang.Proofs.Calm
import TapeLang.Proofs.ClosedForms
import TapeLang.Proofs.Lowered

/-!
# Replacing loops

Lowering replaces loops one by one, so it is enough to know that every single replacement agrees with the loop it
stands for (`agree_lower_of`).  Replacements that come from the summary of a body agree (`agree_summary`), and with
them all programs that are lowered without the catalogue (`agree_lower_plain`).
-/

namespace TapeLang

open Program LoopSummary

namespace Outline

variable {o : Optimizations} {x body rest : Outline} {opening closing : Token} {a : Setting}

/-! ### Summaries -/

/-- The loop and what its summary says about it agree, if every pass is calm. -/
theorem agree_summary {i : Instruction} (regular : body.Regular) (h : verdictOfSummary body.tokens = .replaced i)
    (calm : ∀ b, Passes body.literal a b → b.tape.current ≠ 0 → body.Calm o b) :
    Agree a [.loop body.literal] [i] := by
  unfold verdictOfSummary at h
  split at h
  · next s hs =>
    have run := (ofBody_eq_ok hs).1
    have small : ∀ k ∈ body.tokens, k.count ≤ maxRun := fun k hk => (regular.canonical.valid k hk).small
    have shorter : Agree a [.loop body.literal] [.loop s.canonicalBody] := by
      rw [literal_of_run regular.formed run] at calm ⊢
      refine .loop fun b passes nonzero => agree_canonicalBody hs ?_
      exact staysFrom_of_calm regular.formed (fun k hk => ⟨run k hk, small k hk⟩) (calm b passes nonzero)
    have asc : s.deltas.Ascending := by
      rw [(ofBody_eq_ok hs).2.2]
      exact ascending_ofPass _
    split at h
    · next j hj =>
      cases h
      exact shorter.trans (agree_closedForm asc hj a)
    · cases h
      exact shorter
  · cases h
  · cases h

/-! ### Outlines known by their text -/

/-- The outline of a text that consists of the given symbols, without places. -/
def ofSymbols (symbols : List Symbol) : Outline :=
  ofTokens ((tokensOf (symbols.map (⟨·, 0⟩))).map Token.bare)

theorem Regular.bare (h : x.Regular) : x.bare.Regular := by
  refine ⟨h.formed.bare, ?_, ?_⟩
  · rw [tokens_bare]
    intro k hk
    obtain ⟨l, hl, rfl⟩ := List.mem_map.1 hk
    have valid := h.canonical.valid l hl
    exact ⟨valid.pos, valid.small, valid.single⟩
  · rw [tokens_bare, List.isChain_map]
    exact h.canonical.full

/-- But for the places, a regular outline can be told from its text. -/
theorem Regular.bare_eq {symbols : List Symbol} (h : x.Regular) (text : x.text = Idiom.spelling symbols) :
    x.bare = ofSymbols symbols := by
  have same : x.tokens.flatMap Token.spell = symbols :=
    (List.map_injective_iff.2 fun _ _ => Symbol.toByte_injective) text
  have spelled : (tokensOf (symbols.map (⟨·, 0⟩))).flatMap Token.spell = symbols := by
    rw [spell_tokensOf, List.map_map]
    exact List.map_id symbols
  have tokens : x.bare.tokens = (tokensOf (symbols.map (⟨·, 0⟩))).map Token.bare := by
    rw [tokens_bare]
    exact h.canonical.unique (tokensOf_canonical _) (same.trans spelled.symm)
  rw [← h.formed.bare.ofTokens_tokens, tokens]
  rfl

/-- A loop whose body has a known text agrees with what the summary of that text says. -/
theorem agree_of_text {symbols : List Symbol} {i : Instruction} (regular : body.Regular)
    (text : body.text = Idiom.spelling symbols) (h : verdictOfSummary (ofSymbols symbols).tokens = .replaced i)
    (calm : ∀ b, Passes body.literal a b → b.tape.current ≠ 0 → body.Calm o b) :
    Agree a [.loop body.literal] [i] := by
  rw [← regular.bare_eq text] at h
  rw [← literal_bare] at calm ⊢
  exact agree_summary regular.bare h fun b passes nonzero => (calm b passes nonzero).bare

/-! ### Whole outlines -/

/-- After the first token, which is taken literally, the programs agree if they agree on the rest. -/
private theorem agree_token {k : Token} {p : Program} (calm : (Outline.token k rest).Calm o a)
    (ih : ∀ {b : Setting}, rest.Calm o b → Agree b rest.literal p) :
    Agree a (Outline.token k rest).literal (k.instruction :: p) :=
  .cons (.refl _ _) fun _ once => ih (calm.token once)

theorem IsSubtraction.moves {before after : Token} (h : IsSubtraction before body after) :
    before.instruction = .move 1 ∧ after.instruction = .move (-1) := by
  obtain ⟨symbol, count⟩ := Token.single_of_spell h.1
  obtain ⟨symbol', count'⟩ := Token.single_of_spell h.2.2
  rw [Token.instruction, Token.instruction, symbol, count, symbol', count']
  exact ⟨rfl, rfl⟩

/-- The fragment `>[-<->]<` and the block that replaces it. -/
theorem agree_subtraction {before after : Token} (h : IsSubtraction before body after)
    (regular : (Outline.token before (loop opening closing body (.token after rest))).Regular)
    (calm : (Outline.token before (loop opening closing body (.token after rest))).Calm o a) :
    Agree a [before.instruction, .loop body.literal, after.instruction] [.block Idiom.subtractionProgram] := by
  obtain ⟨eb, ea⟩ := h.moves
  obtain ⟨-, text, -⟩ := h
  have inside : Agree a [.move 1, .loop body.literal, .move (-1)] Idiom.subtractionProgram := by
    refine .cons (.refl _ _) fun b once => ?_
    rw [← eb] at once
    refine .cons ?_ fun _ _ => .refl _ _
    exact agree_of_text regular.token.2.body text rfl fun c passes nonzero =>
      (calm.token once).inside passes nonzero
  rw [eb, ea]
  exact inside.trans fun b => runs_block_iff.symm

/-- If every loop agrees with what replaces it, outlines agree with what they are lowered to. -/
theorem agree_lower_of
    (replace : ∀ {opening closing : Token} {body rest : Outline} {a : Setting} {i : Instruction},
      (loop opening closing body rest).Regular → (loop opening closing body rest).Calm o a →
        verdict o body = .replaced i → Agree a [.loop body.literal] [i])
    {p : Program} (regular : x.Regular) (h : x.lower o = .ok p) (calm : x.Calm o a) : Agree a x.literal p := by
  have lowers := lowers_of_lower h
  clear h
  induction lowers generalizing a with
  | done => exact .refl _ _
  | token _ ih => exact agree_token calm fun calm' => ih regular.token.2 calm'
  | subtraction _ sub _ ih =>
    have first := agree_subtraction sub regular calm
    refine first.append fun b runs => ?_
    obtain ⟨b₁, once, runs⟩ := runs_cons_iff.1 runs
    obtain ⟨b₂, passed, last⟩ := runs_cons_iff.1 runs
    exact ih regular.token.2.rest.token.2 (((calm.token once).past passed).token last)
  | replaced hv _ ih => exact .cons (replace regular calm hv) fun b passed => ih regular.rest (calm.past passed)
  | kept _ _ _ ihBody ihRest =>
    refine Agree.cons ?_ fun b passed => ihRest regular.rest (calm.past passed)
    exact .loop fun b passes nonzero => ihBody regular.body (calm.inside passes nonzero)

/-- Without the catalogue, an outline and what it is lowered to agree on every calm run. -/
theorem agree_lower_plain {p : Program} (plain : o.idioms = false) (regular : x.Regular) (h : x.lower o = .ok p)
    (calm : x.Calm o a) : Agree a x.literal p := by
  refine agree_lower_of ?_ regular h calm
  intro opening closing body rest a i regular calm hv
  have hv' : verdictOfSummary body.tokens = .replaced i := by
    simp only [verdict, plain] at hv
    split at hv
    · next h => cases h
    · split at hv
      · exact hv
      · cases hv
  exact agree_summary regular.body hv' fun b passes nonzero => calm.inside passes nonzero

end Outline

end TapeLang
