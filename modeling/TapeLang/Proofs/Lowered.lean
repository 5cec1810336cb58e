import TapeLang.Proofs.Outcomes
import TapeLang.Proofs.Outlines
import TapeLang.Proofs.Straight

/-!
# What outlines are lowered to

`Outline.Lowers` says, form by form, what lowering an outline can give; everything about the shape of programs follows
from it by induction.  A program has at most as many instructions as the outline has tokens (`Lowers.size_le`), since
a loop that is replaced is not replaced by something longer, and it nests no deeper (`Lowers.depth_le`).
-/

namespace TapeLang

theorem Token.body?_instruction {t : Token} (ho : t.symbol ≠ .opening) (hc : t.symbol ≠ .closing) :
    t.instruction.body? = none := by
  rcases t with ⟨symbol, count, start, position⟩
  cases symbol with
  | opening => exact absurd rfl ho
  | closing => exact absurd rfl hc
  | _ => rfl

namespace LoopSummary

theorem closedForm?_eq_some {s : LoopSummary} {i : Instruction} (h : s.closedForm? = some i) :
    (∃ sign, (sign = 1 ∨ sign = -1) ∧ i = .closed (transfer (s.entriesPerUnit sign))) ∨
      s.displacement ≠ 0 ∧ i = .seek s.displacement.toInt32 := by
  unfold closedForm? at h
  split at h
  · split at h
    · cases h
      exact .inl ⟨1, .inl rfl, rfl⟩
    · split at h
      · cases h
        exact .inl ⟨-1, .inr rfl, rfl⟩
      · cases h
  · next moves =>
    split at h
    · cases h
      exact .inr ⟨moves, rfl⟩
    · cases h

theorem body?_of_closedForm? {s : LoopSummary} {i : Instruction} (h : s.closedForm? = some i) : i.body? = none := by
  rcases closedForm?_eq_some h with ⟨sign, -, rfl⟩ | ⟨-, rfl⟩
  · rfl
  · rfl

end LoopSummary

namespace Outline

open LoopSummary

/-- The forms that lowering goes through, each with what it gives. -/
inductive Lowers (o : Optimizations) : Outline → Program → Prop
  | done : Lowers o done []
  | token {t : Token} {rest : Outline} {p : Program} :
    Lowers o rest p → Lowers o (token t rest) (t.instruction :: p)
  | subtraction {before opening closing after : Token} {body rest : Outline} {p : Program} :
    o.idioms = true → IsSubtraction before body after → Lowers o rest p →
      Lowers o (token before (loop opening closing body (token after rest))) (.block Idiom.subtractionProgram :: p)
  | replaced {opening closing : Token} {body rest : Outline} {i : Instruction} {p : Program} :
    verdict o body = .replaced i → Lowers o rest p → Lowers o (loop opening closing body rest) (i :: p)
  | kept {opening closing : Token} {body rest : Outline} {inner p : Program} :
    verdict o body = .kept → Lowers o body inner → Lowers o rest p →
      Lowers o (loop opening closing body rest) (.loop inner :: p)

variable {o : Optimizations} {x body : Outline} {p : Program} {i : Instruction}

theorem lowers_of_lower (h : x.lower o = .ok p) : x.Lowers o p := by
  fun_induction lower o x generalizing p with
  | case1 =>
    cases h
    exact .done
  | case2 before opening closing body after rest sub ih =>
    obtain ⟨q, hq, rfl⟩ := map_eq_ok h
    exact .subtraction sub.1 sub.2 (ih hq)
  | case3 before opening closing body after rest _ ih =>
    obtain ⟨q, hq, rfl⟩ := map_eq_ok h
    exact .token (ih hq)
  | case4 t rest _ ih =>
    obtain ⟨q, hq, rfl⟩ := map_eq_ok h
    exact .token (ih hq)
  | case5 opening closing body rest lowered ihBody =>
    rename_i ihRest
    obtain ⟨i, hi, h⟩ := bind_eq_ok h
    obtain ⟨q, hq, rfl⟩ := map_eq_ok h
    cases hv : verdict o body with
    | replaced j =>
      simp only [lowered, hv] at hi
      cases hi
      exact .replaced hv (ihRest hq)
    | rejected e =>
      simp only [lowered, hv] at hi
      cases hi
    | kept =>
      simp only [lowered, hv] at hi
      obtain ⟨r, hr, rfl⟩ := map_eq_ok hi
      exact .kept hv (ihBody hr) (ihRest hq)

/-! ### Verdicts -/

/-- A loop is replaced by what the catalogue says, by its closed form or by the loop around its canonical body. -/
theorem verdict_eq_replaced (h : verdict o body = .replaced i) :
    (∃ form, i = .closed form ∧ o.idioms = true ∧ Idiom.ofLoopBody? body.text = some form) ∨
      ∃ s, o.closedForms = true ∧ ofBody body.tokens = .ok s ∧
        (s.closedForm? = some i ∨ i = .loop s.canonicalBody) := by
  unfold verdict at h
  split at h
  · next form found =>
    cases h
    split at found
    · next idioms => exact .inl ⟨form, rfl, idioms, found⟩
    · cases found
  · split at h
    · next closed =>
      unfold verdictOfSummary at h
      split at h
      · next s summary =>
        split at h
        · next found =>
          cases h
          exact .inr ⟨s, closed, summary, .inl found⟩
        · cases h
          exact .inr ⟨s, closed, summary, .inr rfl⟩
      · cases h
      · cases h
    · cases h

/-- If closed forms are wanted, a loop is kept only for the input, the output or the loops in it. -/
theorem effect_of_verdict_eq_kept (h : verdict o body = .kept) (closed : o.closedForms = true) :
    ∃ t ∈ body.tokens, t.symbol.isRun = false := by
  unfold verdict at h
  split at h
  · cases h
  · rw [if_pos closed, verdictOfSummary] at h
    split at h
    · split at h <;> cases h
    · cases h
    · next symbol obstacle =>
      rw [ofBody_eq] at obstacle
      split at obstacle
      · next effect =>
        obtain ⟨t, found, -⟩ := Option.map_eq_some_iff.1 effect
        exact ⟨t, List.mem_of_find?_eq_some found, by simpa using List.find?_some found⟩
      · split at obstacle <;> cases obstacle

/-- What replaces a loop is one instruction without a body, or the loop around a canonical body. -/
theorem body?_of_verdict (h : verdict o body = .replaced i) :
    i.body? = none ∨ ∃ s, ofBody body.tokens = .ok s ∧ i = .loop s.canonicalBody := by
  rcases verdict_eq_replaced h with ⟨form, rfl, -⟩ | ⟨s, -, summary, closed | rfl⟩
  · exact .inl rfl
  · exact .inl (body?_of_closedForm? closed)
  · exact .inr ⟨s, summary, rfl⟩

end Outline

/-! ### Sizes -/

namespace LoopSummary

theorem length_bump (ds : Deltas) (offset amount : Int8) : (ds.bump offset amount).length ≤ ds.length + 1 := by
  induction ds with
  | nil => exact Nat.le_refl 1
  | cons d ds ih =>
    unfold Deltas.bump
    split
    · exact Nat.le_refl _
    · split
      · exact Nat.le_succ _
      · exact Nat.succ_le_succ ih

/-- A pass needs one token for every cell that changes, and one more if the cursor does not come back. -/
theorem length_walk (c : Int) (ds : Deltas) (ts : List Token) :
    (walk c ds ts).2.length + (if (walk c ds ts).1 = c then 0 else 1) ≤ ds.length + ts.length := by
  induction ts generalizing c ds with
  | nil => simp [walk]
  | cons t ts ih =>
    rw [List.length_cons]
    unfold walk
    split
    · have := ih c (ds.bump (Int8.ofInt c) (change t))
      have := length_bump ds (Int8.ofInt c) (change t)
      omega
    · have := ih c (ds.bump (Int8.ofInt c) (change t))
      have := length_bump ds (Int8.ofInt c) (change t)
      omega
    · have := ih (c + shift t) ds
      split <;> omega

theorem length_canonicalBody {body : List Token} {s : LoopSummary} (h : ofBody body = .ok s) :
    s.canonicalBody.length ≤ body.length := by
  obtain ⟨-, -, rfl⟩ := ofBody_eq_ok h
  have whole := length_walk 0 [] body
  have changed : (ofPass body).deltas.length ≤ (walk 0 [] body).2.length := List.length_filter_le ..
  have moves : (ofPass body).displacement ≠ 0 → (walk 0 [] body).1 ≠ 0 := by
    intro moves still
    exact moves (congrArg Int8.ofInt still)
  rw [List.length_nil] at whole
  rw [canonicalBody, List.length_append, List.length_map]
  split
  · rw [List.length_nil]
    omega
  · next away =>
    rw [if_neg (moves away)] at whole
    rw [List.length_singleton]
    omega

/-- A canonical body has no loop or block in it. -/
theorem body?_of_mem_canonicalBody {s : LoopSummary} {i : Instruction} (h : i ∈ s.canonicalBody) :
    i.body? = none := by
  rcases List.mem_append.1 h with h | h
  · obtain ⟨entry, -, rfl⟩ := List.mem_map.1 h
    rfl
  · split at h
    · cases h
    · cases List.mem_singleton.1 h
      rfl

end LoopSummary

mutual

/-- How many loops and blocks stand around the innermost instruction, itself included. -/
def Instruction.depth : Instruction → Nat
  | .loop body => Program.depth body + 1
  | .block body => Program.depth body + 1
  | _ => 0

/-- How deep loops and blocks are nested. -/
def Program.depth : List Instruction → Nat
  | [] => 0
  | i :: rest => max i.depth (Program.depth rest)

end

theorem Token.size_instruction (t : Token) : t.instruction.size = 1 := by
  rcases t with ⟨symbol, count, start, position⟩
  cases symbol <;> rfl

theorem Instruction.flat_of_body? {i : Instruction} (h : i.body? = none) :
    i.preorder = [i] ∧ i.size = 1 ∧ i.depth = 0 := by
  cases i with
  | loop body | block body => cases h
  | _ => exact ⟨rfl, rfl, rfl⟩

/-- A program without loops and blocks. -/
theorem Program.flat_of_body? {p : Program} (h : ∀ i ∈ p, i.body? = none) :
    Program.preorder p = p ∧ Program.size p = p.length ∧ Program.depth p = 0 := by
  induction p with
  | nil => exact ⟨rfl, rfl, rfl⟩
  | cons i p ih =>
    obtain ⟨preorder, size, depth⟩ := Instruction.flat_of_body? (h i (by simp))
    obtain ⟨preorder', size', depth'⟩ := ih fun j hj => h j (List.mem_cons_of_mem _ hj)
    refine ⟨?_, ?_, ?_⟩
    · rw [Program.preorder, preorder, preorder']
      rfl
    · rw [Program.size, size, size', List.length_cons, Nat.add_comm]
    · rw [Program.depth, depth, depth']
      rfl

namespace Outline

/-- How deep the loops of an outline are nested. -/
def depth : Outline → Nat
  | done => 0
  | token _ rest => rest.depth
  | loop _ _ body rest => max (body.depth + 1) rest.depth

variable {o : Optimizations} {x body : Outline} {p : Program} {i : Instruction}

/-- What replaces a loop. -/
theorem size_le_of_verdict (h : verdict o body = .replaced i) : i.size ≤ body.tokens.length + 1 ∧ i.depth ≤ 1 := by
  rcases body?_of_verdict h with flat | ⟨s, summary, rfl⟩
  · obtain ⟨-, size, depth⟩ := Instruction.flat_of_body? flat
    rw [size, depth]
    omega
  · obtain ⟨-, size, depth⟩ := Program.flat_of_body? fun _ => LoopSummary.body?_of_mem_canonicalBody (s := s)
    have := LoopSummary.length_canonicalBody summary
    rw [Instruction.size, Instruction.depth, size, depth]
    omega

/-- A program has at most one instruction for each token. -/
theorem Lowers.size_le (h : x.Lowers o p) : Program.size p ≤ x.tokens.length := by
  induction h with
  | done => exact Nat.le_refl 0
  | token _ ih =>
    rw [Program.size, Token.size_instruction, tokens, List.length_cons]
    omega
  | subtraction _ _ _ ih =>
    -- the two moves and the two brackets are four tokens already
    have size : (Instruction.block Idiom.subtractionProgram).size = 4 := rfl
    simp only [Program.size, size, tokens, List.length_cons, List.length_append]
    omega
  | replaced verdict _ ih =>
    have := (size_le_of_verdict verdict).1
    simp only [Program.size, tokens, List.length_cons, List.length_append]
    omega
  | kept _ _ _ ihBody ihRest =>
    simp only [Program.size, Instruction.size, tokens, List.length_cons, List.length_append]
    omega

/-- A program is nested no deeper than the outline.  A bracket by itself would be a block, but a formed outline has
none. -/
theorem Lowers.depth_le (h : x.Lowers o p) (formed : x.Formed) : Program.depth p ≤ x.depth := by
  induction h with
  | done => exact Nat.le_refl 0
  | token _ ih =>
    obtain ⟨-, -, flat⟩ := Instruction.flat_of_body? (Token.body?_instruction formed.1 formed.2.1)
    rw [Program.depth, flat, Nat.zero_max]
    exact ih formed.2.2
  | subtraction _ _ _ ih =>
    have block : (Instruction.block Idiom.subtractionProgram).depth = 1 := rfl
    obtain ⟨-, -, -, -, -, -, -, later⟩ := formed
    have := ih later
    simp only [Program.depth, block, depth]
    omega
  | replaced verdict _ ih =>
    have := (size_le_of_verdict verdict).2
    have := ih formed.2.2.2
    simp only [Program.depth, depth]
    omega
  | kept _ _ _ ihBody ihRest =>
    have := ihBody formed.2.2.1
    have := ihRest formed.2.2.2
    simp only [Program.depth, Instruction.depth, depth]
    omega

end Outline

end TapeLang
