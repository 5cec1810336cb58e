import TapeLang.Proofs.Calm
import TapeLang.Proofs.Outcomes

/-!
# Positions are only carried along

Where a symbol stands decides nothing: if the positions in a text are changed by some function, the same is accepted
and it is translated to the same, and only the positions in errors change, by the same function (`ofSource_relocate`).
It follows that an error always names the position of a symbol of the text (`position_of_error`).
-/

namespace TapeLang

/-- The same error at another position. -/
def SourceError.moveTo : SourceError → Nat → SourceError
  | .unclosedLoop _, p => .unclosedLoop p
  | .strayClose _, p => .strayClose p
  | .farOffset _ offset, p => .farOffset p offset
  | .nestedTooDeep _ limit, p => .nestedTooDeep p limit

/-- The same error in a text whose positions are changed by `f`. -/
def SourceError.relocate (f : Nat → Nat) (e : SourceError) : SourceError := e.moveTo (f e.position)

@[simp] theorem SourceError.position_moveTo (e : SourceError) (p : Nat) : (e.moveTo p).position = p := by
  cases e <;> rfl

def Mark.relocate (f : Nat → Nat) (m : Mark) : Mark := ⟨m.symbol, f m.position⟩

def Token.relocate (f : Nat → Nat) (t : Token) : Token := { t with position := f t.position }

/-! ### Scanning -/

theorem checkBrackets_relocate (f : Nat → Nat) (opened : List Nat) (ms : List Mark) :
    checkBrackets (opened.map f) (ms.map (Mark.relocate f))
      = (checkBrackets opened ms).mapError (SourceError.relocate f) := by
  induction ms generalizing opened with
  | nil => cases opened <;> rfl
  | cons m ms ih =>
    rcases m with ⟨symbol, position⟩
    cases symbol with
    | opening =>
      simp only [List.map_cons, Mark.relocate, checkBrackets, List.length_map]
      split
      · exact ih (position :: opened)
      · rfl
    | closing =>
      cases opened with
      | nil => rfl
      | cons p opened => exact ih opened
    | _ => exact ih opened

theorem tokensFrom_relocate (f : Nat → Nat) (run : Token) (ms : List Mark) :
    tokensFrom (run.relocate f) (ms.map (Mark.relocate f)) = (tokensFrom run ms).map (Token.relocate f) := by
  induction ms generalizing run with
  | nil => rfl
  | cons m ms ih =>
    have absorbs : (run.relocate f).Absorbs (m.relocate f).symbol ↔ run.Absorbs m.symbol := Iff.rfl
    simp only [List.map_cons, tokensFrom, absorbs]
    split
    · exact ih { run with count := run.count + 1 }
    · exact congrArg _ (ih ⟨m.symbol, 1, run.stop, m.position⟩)

theorem tokensOf_relocate (f : Nat → Nat) (ms : List Mark) :
    tokensOf (ms.map (Mark.relocate f)) = (tokensOf ms).map (Token.relocate f) := by
  cases ms with
  | nil => rfl
  | cons m ms => exact tokensFrom_relocate f ⟨m.symbol, 1, 0, m.position⟩ ms

/-! ### Summaries -/

/-- Tokens are put at other places: symbols and counts stay, and positions are changed by `f`. -/
structure Token.Places (g : Token → Token) (f : Nat → Nat) : Prop where
  symbol : ∀ t, (g t).symbol = t.symbol
  count : ∀ t, (g t).count = t.count
  position : ∀ t, (g t).position = f t.position

theorem Token.places_relocate (f : Nat → Nat) : Token.Places (Token.relocate f) f :=
  ⟨fun _ => rfl, fun _ => rfl, fun _ => rfl⟩

theorem Token.places_bare : Token.Places Token.bare fun _ => 0 := ⟨fun _ => rfl, fun _ => rfl, fun _ => rfl⟩

section

variable {g : Token → Token} {f : Nat → Nat}

theorem Token.Places.spell (h : Token.Places g f) (t : Token) : (g t).spell = t.spell := by
  rw [Token.spell, Token.spell, h.symbol, h.count]

theorem Token.Places.instruction (h : Token.Places g f) (t : Token) : (g t).instruction = t.instruction := by
  rw [Token.instruction, Token.instruction, h.symbol, h.count]

namespace LoopSummary

theorem shift_places (h : Token.Places g f) (t : Token) : shift (g t) = shift t := by
  rw [shift, shift, h.symbol, h.count]

theorem change_places (h : Token.Places g f) (t : Token) : change (g t) = change t := by
  rw [change, change, h.symbol, h.count]

theorem firstEffect?_places (h : Token.Places g f) (ts : List Token) :
    firstEffect? (ts.map g) = firstEffect? ts := by
  have same : (fun t : Token => !t.symbol.isRun) ∘ g = fun t => !t.symbol.isRun := by
    funext t
    simp only [Function.comp, h.symbol]
  have symbol : Token.symbol ∘ g = Token.symbol := funext h.symbol
  rw [firstEffect?, firstEffect?, List.find?_map, same, Option.map_map, symbol]

theorem firstFar?_places (h : Token.Places g f) (cursor : Int) (ts : List Token) :
    firstFar? cursor (ts.map g) = (firstFar? cursor ts).map fun far => (f far.1, far.2) := by
  induction ts generalizing cursor with
  | nil => rfl
  | cons t ts ih =>
    simp only [List.map_cons, firstFar?, shift_places h, h.position]
    split
    · exact ih _
    · rfl

theorem walk_places (h : Token.Places g f) (cursor : Int) (deltas : Deltas) (ts : List Token) :
    walk cursor deltas (ts.map g) = walk cursor deltas ts := by
  induction ts generalizing cursor deltas with
  | nil => rfl
  | cons t ts ih =>
    simp only [List.map_cons, walk, h.symbol, shift_places h, change_places h]
    split
    · exact ih _ _
    · exact ih _ _
    · exact ih _ _

/-- The same obstacle in a text whose positions are changed by `f`. -/
def relocateObstacle (f : Nat → Nat) : Obstacle → Obstacle
  | .effect symbol => .effect symbol
  | .farOffset position offset => .farOffset (f position) offset

theorem ofBody_places (h : Token.Places g f) (ts : List Token) :
    ofBody (ts.map g) = (ofBody ts).mapError (relocateObstacle f) := by
  simp only [ofBody_eq, firstEffect?_places h, firstFar?_places h]
  cases firstEffect? ts with
  | some symbol => rfl
  | none =>
    cases firstFar? 0 ts with
    | some far => rfl
    | none =>
      simp only [ofPass, walk_places h]
      rfl

end LoopSummary

/-! ### Lowering -/

namespace Outline

/-- Changes every token of an outline. -/
def map (g : Token → Token) : Outline → Outline
  | done => done
  | token t rest => token (g t) (rest.map g)
  | loop opening closing body rest => loop (g opening) (g closing) (body.map g) (rest.map g)

theorem bare_eq_map (x : Outline) : x.bare = x.map Token.bare := by
  induction x with
  | done => rfl
  | token t rest ih => rw [bare, map, ih]
  | loop opening closing body rest ihBody ihRest => rw [bare, map, ihBody, ihRest]

theorem tokens_map (g : Token → Token) (x : Outline) : (x.map g).tokens = x.tokens.map g := by
  induction x with
  | done => rfl
  | token t rest ih => simp [map, tokens, ih]
  | loop opening closing body rest ihBody ihRest => simp [map, tokens, ihBody, ihRest]

theorem text_places (h : Token.Places g f) (x : Outline) : (x.map g).text = x.text := by
  rw [text, text, tokens_map, List.flatMap_map]
  simp only [h.spell]

theorem ofTokens_places (h : Token.Places g f) (ts : List Token) : ofTokens (ts.map g) = (ofTokens ts).map g := by
  -- what is read so far changes with the tokens, what waits for its `[` included
  have reading : read (ts.map g)
      = ⟨(read ts).body.map g, (read ts).waiting.map fun w => (g w.1, w.2.map g)⟩ := by
    induction ts with
    | nil => rfl
    | cons t ts ih =>
      show (read (ts.map g)).prepend (g t) = _
      rw [ih]
      show _ = (⟨((read ts).prepend t).body.map g, ((read ts).prepend t).waiting.map _⟩ : Reading)
      simp only [Reading.prepend, h.symbol]
      generalize read ts = r
      rcases r with ⟨body, waiting⟩
      cases t.symbol with
      | opening => cases waiting <;> rfl
      | _ => rfl
  rw [ofTokens, ofTokens, reading]

/-- The same verdict in a text whose positions are changed by `f`. -/
def Verdict.relocate (f : Nat → Nat) : Verdict → Verdict
  | .replaced i => .replaced i
  | .rejected e => .rejected (e.relocate f)
  | .kept => .kept

theorem verdictOfSummary_places (h : Token.Places g f) (ts : List Token) :
    verdictOfSummary (ts.map g) = (verdictOfSummary ts).relocate f := by
  simp only [verdictOfSummary, LoopSummary.ofBody_places h]
  cases LoopSummary.ofBody ts with
  | ok s =>
    simp only [Except.mapError]
    split <;> rfl
  | error e => cases e <;> rfl

theorem verdict_places (h : Token.Places g f) (o : Optimizations) (body : Outline) :
    verdict o (body.map g) = (verdict o body).relocate f := by
  simp only [verdict, text_places h, tokens_map, verdictOfSummary_places h]
  split
  · rfl
  · split <;> rfl

theorem isSubtraction_places (h : Token.Places g f) (before : Token) (body : Outline) (after : Token) :
    IsSubtraction (g before) (body.map g) (g after) ↔ IsSubtraction before body after := by
  simp only [IsSubtraction, h.spell, text_places h]

theorem lower_places (h : Token.Places g f) (o : Optimizations) (x : Outline) :
    (x.map g).lower o = (x.lower o).mapError (SourceError.relocate f) := by
  fun_induction lower o x with
  | case1 => rfl
  | case2 before opening closing body after rest sub ih =>
    rw [map, map, map, lower, if_pos ⟨sub.1, (isSubtraction_places h ..).2 sub.2⟩, ih, mapError_map]
  | case3 before opening closing body after rest sub ih =>
    have sub' : ¬ (o.idioms = true ∧ IsSubtraction (g before) (body.map g) (g after)) := by
      rw [isSubtraction_places h]
      exact sub
    have ih' : lower o (loop (g opening) (g closing) (body.map g) (token (g after) (rest.map g))) = _ := ih
    rw [map, map, map, lower, if_neg sub', ih', mapError_map, h.instruction]
  | case4 t rest plain ih =>
    have plain' : ∀ opening closing body after later, rest.map g ≠ loop opening closing body (token after later) := by
      intro opening closing body after later e
      cases rest with
      | loop o' c' b' r' =>
        cases r' with
        | token a' l' => exact plain o' c' b' a' l' rfl
        | _ => cases e
      | _ => cases e
    rw [map, lower, ih, mapError_map, h.instruction]
    exact plain'
  | case5 opening closing body rest lowered ihBody ihRest =>
    rw [map, lower_loop, ihRest, mapError_bind]
    simp only [mapError_map]
    congr 1
    simp only [lowerLoop, verdict_places h, ihBody, lowered]
    cases verdict o body with
    | replaced i => rfl
    | rejected e => rfl
    | kept => exact (mapError_map ..).symm

end Outline

end

/-! ### Translating -/

/-- The same scan of a text whose positions are changed by `f`. -/
def Scan.relocate (f : Nat → Nat) (s : Scan) : Scan := { s with tokens := s.tokens.map (Token.relocate f) }

variable {f : Nat → Nat} {s c : List UInt8}

theorem Scan.eq_ofMarks {scan : Scan} (h : Scan.ofSource s = .ok scan) : scan = Scan.ofMarks (marks s) := by
  rw [Scan.ofSource_eq] at h
  cases hb : checkBrackets [] (marks s) with
  | error e =>
    rw [hb] at h
    cases h
  | ok _ =>
    rw [hb] at h
    exact (Except.ok.inj h).symm

theorem Scan.ofSource_relocate (h : marks s = (marks c).map (Mark.relocate f)) :
    Scan.ofSource s = ((Scan.ofSource c).map (Scan.relocate f)).mapError (SourceError.relocate f) := by
  have brackets : checkBrackets [] ((marks c).map (Mark.relocate f)) = _ := checkBrackets_relocate f [] (marks c)
  rw [Scan.ofSource_eq, Scan.ofSource_eq, h, brackets]
  cases checkBrackets [] (marks c) with
  | error e => rfl
  | ok _ =>
    have symbols : (tokensOf (marks c)).map (Token.symbol ∘ Token.relocate f)
        = (tokensOf (marks c)).map Token.symbol := rfl
    simp only [Except.mapError, Except.map, Scan.ofMarks, Scan.relocate, tokensOf_relocate, List.map_map, symbols]
    rfl

/-- If texts differ in the positions of their symbols only, they are translated to the same, or the same error is
reported where the positions correspond. -/
theorem Program.ofSource_relocate (o : Optimizations) (h : marks s = (marks c).map (Mark.relocate f)) :
    Program.ofSource o s = (Program.ofSource o c).mapError (SourceError.relocate f) := by
  rw [Program.ofSource, Program.ofSource, Scan.ofSource_relocate h]
  cases Scan.ofSource c with
  | error e => rfl
  | ok scan =>
    simp only [Except.map, Except.mapError, Except.bind, Scan.relocate]
    rw [Outline.ofTokens_places (Token.places_relocate f), Outline.lower_places (Token.places_relocate f)]
    cases (Outline.ofTokens scan.tokens).lower o <;> rfl

/-- An error names the position of a symbol. -/
theorem position_of_error {o : Optimizations} {e : SourceError} (h : Program.ofSource o s = .error e) :
    e.position ∈ (marks s).map Mark.position := by
  -- moving all other positions away changes nothing, so it does not change the position in the error
  let f : Nat → Nat := fun p => if p ∈ (marks s).map Mark.position then p else p + 1
  have same : marks s = (marks s).map (Mark.relocate f) := by
    conv_lhs => rw [← List.map_id (marks s)]
    apply List.map_congr_left
    intro m hm
    have mem : m.position ∈ (marks s).map Mark.position := List.mem_map_of_mem hm
    simp only [id, Mark.relocate, f, if_pos mem]
  have moved := Program.ofSource_relocate o same
  rw [h] at moved
  have fixed : e = e.relocate f := Except.error.inj moved
  have position : e.position = f e.position := by
    conv_lhs => rw [fixed, SourceError.relocate, SourceError.position_moveTo]
  by_contra away
  simp only [f, if_neg away] at position
  omega

end TapeLang
