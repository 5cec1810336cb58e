import TapeLang.LoopSummary

/-!
# One survey, three passes

A survey of a body looks for input, output and loops, for the first move that leads too far, and for the changes, all
at once.  Here the three are told apart, each as a pass of its own (`firstEffect?`, `firstFar?`, `ofPass`), with the
order in which they count (`ofBody_eq`).
-/

namespace TapeLang.LoopSummary

/-- The first symbol of a body that is neither a move nor an add. -/
def firstEffect? (body : List Token) : Option Symbol :=
  (body.find? fun t => !t.symbol.isRun).map Token.symbol

/-- The first move after which the cursor, coming from `cursor`, is out of the range of a signed byte. -/
def firstFar? (cursor : Int) : List Token → Option (Nat × Int)
  | [] => none
  | t :: rest =>
    if FitsByte (cursor + shift t) then firstFar? (cursor + shift t) rest
    else some (t.position, cursor + shift t)

/-- The cursor and the changes after one pass over the tokens. -/
def walk (cursor : Int) (deltas : Deltas) : List Token → Int × Deltas
  | [] => (cursor, deltas)
  | t :: rest =>
    match t.symbol with
    | .inc | .dec => walk cursor (deltas.bump (Int8.ofInt cursor) (change t)) rest
    | _ => walk (cursor + shift t) deltas rest

/-- The summary of one pass, without the cells that end up unchanged. -/
def ofPass (body : List Token) : LoopSummary :=
  let (cursor, deltas) := walk 0 [] body
  ⟨Int8.ofInt cursor, deltas.filter fun entry => entry.2 != 0⟩

variable {t : Token} {ts : List Token}

theorem firstEffect?_eq_none_iff : firstEffect? ts = none ↔ ∀ k ∈ ts, k.symbol.isRun = true := by
  rw [firstEffect?, Option.map_eq_none_iff, List.find?_eq_none]
  simp

theorem firstFar?_cons (c : Int) (t : Token) (ts : List Token) :
    firstFar? c (t :: ts) = (farAt (c + shift t) t).or (firstFar? (c + shift t) ts) := by
  rw [firstFar?, farAt]
  split <;> rfl

namespace Survey

theorem step_of_effect (s : Survey) (effect : t.symbol.isRun = false) : s.step t = .error (.effect t.symbol) := by
  rcases t with ⟨symbol, count, start, position⟩
  cases symbol <;> first | rfl | cases effect

/-- A move or an add: the cursor moves, a cursor that is out of range is noted, and otherwise the change is kept. -/
theorem step_of_isRun (s : Survey) (plain : t.symbol.isRun = true) :
    ∃ ds, s.step t = .ok ⟨s.cursor + shift t, ds, s.far.or (farAt (s.cursor + shift t) t)⟩ ∧
      (farAt (s.cursor + shift t) t = none → ∀ ts,
        walk s.cursor s.deltas (t :: ts) = walk (s.cursor + shift t) ds ts) := by
  rcases t with ⟨symbol, count, start, position⟩
  have still (h : shift ⟨symbol, count, start, position⟩ = 0) : s.cursor + shift ⟨symbol, count, start, position⟩
      = s.cursor := by rw [h, Int.add_zero]
  cases symbol with
  | right | left => exact ⟨s.deltas, rfl, fun _ _ => rfl⟩
  | inc | dec =>
    rw [still rfl]
    cases place : farAt s.cursor _ with
    | some far => exact ⟨s.deltas, by simp only [step, place], nofun⟩
    | none => exact ⟨_, by simp only [step, place, Option.or_none], fun _ _ => rfl⟩
  | _ => cases plain

/-- An effect ends the survey, wherever the cursor is by then. -/
theorem run_of_effect {symbol : Symbol} (s : Survey) (found : firstEffect? ts = some symbol) :
    s.run ts = .error (.effect symbol) := by
  induction ts generalizing s with
  | nil => cases found
  | cons t ts ih =>
    rw [run]
    cases plain : t.symbol.isRun with
    | true =>
      obtain ⟨ds, next, -⟩ := s.step_of_isRun plain
      rw [next]
      refine ih _ ?_
      rw [firstEffect?, List.find?_cons_of_neg (by simp [plain])] at found
      exact found
    | false =>
      rw [s.step_of_effect plain]
      rw [firstEffect?, List.find?_cons_of_pos (by simp [plain])] at found
      cases found
      rfl

/-- Without an effect the survey comes to the end.  If the cursor stays in range, it knows what the walk knows. -/
theorem run_of_isRun (s : Survey) (plain : ∀ t ∈ ts, t.symbol.isRun = true) :
    ∃ s', s.run ts = .ok s' ∧ s'.far = s.far.or (firstFar? s.cursor ts) ∧
      (s'.far = none → walk s.cursor s.deltas ts = (s'.cursor, s'.deltas)) := by
  induction ts generalizing s with
  | nil => exact ⟨s, rfl, (Option.or_none).symm, fun _ => rfl⟩
  | cons t ts ih =>
    obtain ⟨first, later⟩ := List.forall_mem_cons.1 plain
    obtain ⟨ds, next, walked⟩ := s.step_of_isRun first
    obtain ⟨s', run', far, rest⟩ := ih ⟨_, ds, _⟩ later
    refine ⟨s', ?_, ?_, fun near => ?_⟩
    · rw [run, next]
      exact run'
    · rw [far, firstFar?_cons, Option.or_assoc]
    · rw [far, Option.or_eq_none_iff, Option.or_eq_none_iff] at near
      rw [walked near.1.2]
      exact rest (by rw [far, near.1.1, near.1.2, near.2]; rfl)

end Survey

/-- Input, output and loops stand in the way of a summary wherever they are.  Only without them does it matter how far
the cursor goes. -/
theorem ofBody_eq (body : List Token) : ofBody body =
    match firstEffect? body with
    | some symbol => .error (.effect symbol)
    | none =>
      match firstFar? 0 body with
      | some (position, offset) => .error (.farOffset position offset)
      | none => .ok (ofPass body) := by
  unfold ofBody
  cases effect : firstEffect? body with
  | some symbol => rw [Survey.start.run_of_effect effect]; rfl
  | none =>
    obtain ⟨s, run, far, pass⟩ := Survey.start.run_of_isRun (firstEffect?_eq_none_iff.1 effect)
    have far : s.far = firstFar? 0 body := far
    rw [run, ← far]
    show s.finish = _
    unfold Survey.finish
    cases place : s.far with
    | some _ => rfl
    | none =>
      have pass : walk 0 [] body = (s.cursor, s.deltas) := pass place
      simp only [ofPass, pass]

end TapeLang.LoopSummary
