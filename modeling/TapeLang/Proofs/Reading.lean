import TapeLang.Proofs.Lexemes

/-!
# Reading what was printed

The readers find every legible expression, statement and file again in its lexemes (`readExpr_lexemes`,
`readStatement_lexemes`, `File.ofLexemes?_lexemes`), whatever follows them, as long as it does not go on with the
expression (`Stops`).  Together with the lexemes of texts this gives `File.ofText?_render`: a legible file is read
from its own text.
-/

namespace TapeLang.C

/-- What follows an expression of this level does not become a part of it. -/
def Stops (level : Nat) : List Lexeme → Prop
  | .openParen :: _ => False
  | .op o :: _ => o.level ≤ level
  | .question :: _ => 0 < level
  | _ => True

theorem Stops.mono {m n : Nat} {rest : List Lexeme} (h : Stops m rest) (le : m ≤ n) : Stops n rest := by
  unfold Stops at h ⊢
  split at h
  · exact h
  · exact Nat.le_trans h le
  · exact Nat.lt_of_lt_of_le h le
  · trivial

theorem level_pos (o : Op) : 0 < o.level := by
  cases o <;> decide

/-- Nothing is read where the expression stops. -/
theorem readMore_of_stops {n k depth : Nat} {e : Expr} {rest : List Lexeme} (stops : Stops n rest)
    (hk : n < k ∨ n = 0)
    (pos : 0 < depth) : readMore depth k e rest = some (e, rest) := by
  obtain ⟨depth, rfl⟩ := Nat.exists_eq_succ_of_ne_zero (Nat.ne_of_gt pos)
  unfold readMore
  split
  · have h : 0 < n := stops
    rw [if_neg (by omega)]
  · rename_i o rest
    have h : o.level ≤ n := stops
    have := level_pos o
    rw [if_neg (by omega)]
  · rfl

/-- The lexemes that an expression can start with. -/
def Lexeme.startsExpr : Lexeme → Bool
  | name _ | number _ | tape | openParen | op .sub => true
  | _ => false

theorem exists_head (e : Expr) : ∃ l ls, e.lexemes = l :: ls ∧ l.startsExpr = true := by
  induction e with
  | lit n => exact ⟨_, _, rfl, rfl⟩
  | var x => exact ⟨_, _, rfl, rfl⟩
  | cell index => exact ⟨_, _, rfl, rfl⟩
  | call f argument => exact ⟨_, _, rfl, rfl⟩
  | toByte e => exact ⟨_, _, rfl, rfl⟩
  | neg e => exact ⟨_, _, rfl, rfl⟩
  | paren e => exact ⟨_, _, rfl, rfl⟩
  | binary o left right ihl _ =>
    obtain ⟨l, ls, h, starts⟩ := ihl
    exact ⟨l, ls ++ [Lexeme.op o] ++ right.lexemes, by rw [Expr.lexemes, h]; rfl, starts⟩
  | cond test yes no iht _ _ =>
    obtain ⟨l, ls, h, starts⟩ := iht
    exact ⟨l, ls ++ [Lexeme.question] ++ yes.lexemes ++ [Lexeme.colon] ++ no.lexemes, by rw [Expr.lexemes, h]; rfl,
      starts⟩

/-- An operand is found in front of whatever follows it. -/
def FoundAsOperand (e : Expr) : Prop :=
  ∀ {rest : List Lexeme} {depth : Nat}, Stops e.level rest → 2 * (e.lexemes ++ rest).length < depth →
    readOperand depth (e.lexemes ++ rest) = some (e, rest)

/-- An expression is found, and what is read then is what is read behind it. -/
def Found (e : Expr) : Prop :=
  ∀ {k : Nat} {rest : List Lexeme} {result : Expr × List Lexeme} {depth : Nat}, k ≤ e.level → Stops e.level rest →
    (∀ d, 2 * rest.length < d → readMore d k e rest = some result) → 2 * (e.lexemes ++ rest).length + 1 < depth →
    readExpr depth k (e.lexemes ++ rest) = some result

theorem Found.of_operand {e : Expr} (h : FoundAsOperand e) : Found e := by
  intro k rest result depth _ stops later enough
  obtain ⟨depth, rfl⟩ := Nat.exists_eq_succ_of_ne_zero (Nat.ne_of_gt (Nat.zero_lt_of_lt enough))
  rw [List.length_append] at enough
  have operand : readOperand depth (e.lexemes ++ rest) = some (e, rest) :=
    h stops (by rw [List.length_append]; omega)
  rw [readExpr, operand]
  exact later depth (by omega)

/-- An expression is found up to a lexeme that closes it. -/
theorem Found.closed {e : Expr} (h : Found e) {rest : List Lexeme} {depth : Nat} (stops : Stops 0 rest)
    (enough : 2 * (e.lexemes ++ rest).length + 1 < depth) : readExpr depth 0 (e.lexemes ++ rest) = some (e, rest) :=
  h (Nat.zero_le _) (stops.mono (Nat.zero_le _)) (fun _ hd => readMore_of_stops stops (.inr rfl) (by omega)) enough

section

variable {e left right test yes no index argument : Expr} {o : Op}

theorem foundAsOperand_lit (n : Nat) : FoundAsOperand (.lit n) := by
  intro rest depth _ enough
  obtain ⟨depth, rfl⟩ := Nat.exists_eq_succ_of_ne_zero (Nat.ne_of_gt (Nat.zero_lt_of_lt enough))
  rfl

theorem foundAsOperand_var (x : String) : FoundAsOperand (.var x) := by
  intro rest depth stops enough
  obtain ⟨depth, rfl⟩ := Nat.exists_eq_succ_of_ne_zero (Nat.ne_of_gt (Nat.zero_lt_of_lt enough))
  rcases rest with _ | ⟨l, rest⟩
  · rfl
  · cases l with
    | openParen => exact stops.elim
    | _ => rfl

theorem foundAsOperand_cell (h : Found index) : FoundAsOperand (.cell index) := by
  intro rest depth _ enough
  obtain ⟨depth, rfl⟩ := Nat.exists_eq_succ_of_ne_zero (Nat.ne_of_gt (Nat.zero_lt_of_lt enough))
  simp only [Expr.lexemes, List.cons_append, List.nil_append, List.append_assoc, List.length_cons] at enough ⊢
  have inner : readExpr depth 0 (index.lexemes ++ .closeBracket :: rest) = some (index, .closeBracket :: rest) :=
    h.closed trivial (by omega)
  rw [readOperand, inner]
  rfl

theorem foundAsOperand_call (f : String) (h : Found argument) : FoundAsOperand (.call f argument) := by
  intro rest depth _ enough
  obtain ⟨depth, rfl⟩ := Nat.exists_eq_succ_of_ne_zero (Nat.ne_of_gt (Nat.zero_lt_of_lt enough))
  simp only [Expr.lexemes, List.cons_append, List.nil_append, List.append_assoc, List.length_cons] at enough ⊢
  have inner : readExpr depth 0 (argument.lexemes ++ .closeParen :: rest) = some (argument, .closeParen :: rest) :=
    h.closed trivial (by omega)
  rw [readOperand, inner]
  rfl

theorem foundAsOperand_paren (h : Found e) : FoundAsOperand (.paren e) := by
  intro rest depth _ enough
  obtain ⟨depth, rfl⟩ := Nat.exists_eq_succ_of_ne_zero (Nat.ne_of_gt (Nat.zero_lt_of_lt enough))
  simp only [Expr.lexemes, List.cons_append, List.nil_append, List.append_assoc, List.length_cons] at enough ⊢
  have inner : readExpr depth 0 (e.lexemes ++ .closeParen :: rest) = some (e, .closeParen :: rest) :=
    h.closed trivial (by omega)
  -- an expression does not start like a conversion
  obtain ⟨l, ls, head, starts⟩ := exists_head e
  rw [head, List.cons_append] at inner ⊢
  have read : readOperand (depth + 1) (.openParen :: l :: (ls ++ .closeParen :: rest))
      = (readExpr depth 0 (l :: (ls ++ .closeParen :: rest))).bind fun found =>
        ([Lexeme.closeParen].isPrefixOf? found.2).bind fun rest => some (.paren found.1, rest) := by
    cases l with
    | type t => cases starts
    | _ => rfl
  rw [read, inner]
  rfl

theorem foundAsOperand_toByte (h : FoundAsOperand e) (level : 6 ≤ e.level) : FoundAsOperand (.toByte e) := by
  intro rest depth stops enough
  obtain ⟨depth, rfl⟩ := Nat.exists_eq_succ_of_ne_zero (Nat.ne_of_gt (Nat.zero_lt_of_lt enough))
  simp only [Expr.lexemes, List.cons_append, List.nil_append, List.length_cons] at enough ⊢
  have inner : readOperand depth (e.lexemes ++ rest) = some (e, rest) := h (stops.mono level) (by omega)
  rw [readOperand, inner]
  rfl

theorem foundAsOperand_neg (h : FoundAsOperand e) (level : 6 ≤ e.level) : FoundAsOperand (.neg e) := by
  intro rest depth stops enough
  obtain ⟨depth, rfl⟩ := Nat.exists_eq_succ_of_ne_zero (Nat.ne_of_gt (Nat.zero_lt_of_lt enough))
  simp only [Expr.lexemes, List.cons_append, List.nil_append, List.length_cons] at enough ⊢
  have inner : readOperand depth (e.lexemes ++ rest) = some (e, rest) := h (stops.mono level) (by omega)
  rw [readOperand, inner]
  rfl

theorem found_binary (hl : Found left) (hr : Found right) (level : o.level ≤ left.level)
    (level' : o.level < right.level) : Found (.binary o left right) := by
  intro k rest result depth hk stops later enough
  have hk : k ≤ o.level := hk
  have stops : Stops o.level rest := stops
  simp only [Expr.lexemes, List.append_assoc, List.cons_append, List.nil_append] at enough ⊢
  refine hl (Nat.le_trans hk level) level ?_ enough
  intro d hd
  obtain ⟨d, rfl⟩ := Nat.exists_eq_succ_of_ne_zero (Nat.ne_of_gt (Nat.zero_lt_of_lt hd))
  rw [List.length_cons, List.length_append] at hd
  -- the right operand ends where the whole expression ends
  have operand : readExpr d (o.level + 1) (right.lexemes ++ rest) = some (right, rest) := by
    refine hr level' (stops.mono (Nat.le_of_lt level')) (fun d' hd' => ?_) (by rw [List.length_append]; omega)
    exact readMore_of_stops stops (.inl (Nat.lt_succ_self _)) (by omega)
  rw [readMore]
  simp only [if_pos hk, operand]
  exact later d (by omega)

theorem found_cond (ht : Found test) (hy : Found yes) (hn : Found no) (level : 0 < test.level) :
    Found (.cond test yes no) := by
  intro k rest result depth hk stops later enough
  obtain rfl : k = 0 := Nat.le_zero.1 hk
  have stops : Stops 0 rest := stops
  simp only [Expr.lexemes, List.append_assoc, List.cons_append, List.nil_append] at enough ⊢
  refine ht (Nat.zero_le _) level ?_ enough
  intro d hd
  obtain ⟨d, rfl⟩ := Nat.exists_eq_succ_of_ne_zero (Nat.ne_of_gt (Nat.zero_lt_of_lt hd))
  simp only [List.length_cons, List.length_append] at hd
  have first : readExpr d 0 (yes.lexemes ++ .colon :: (no.lexemes ++ rest))
      = some (yes, .colon :: (no.lexemes ++ rest)) :=
    hy.closed trivial (by simp only [List.length_cons, List.length_append]; omega)
  have second : readExpr d 0 (no.lexemes ++ rest) = some (no, rest) :=
    hn.closed stops (by simp only [List.length_append]; omega)
  have whole : readMore (d + 1) 0 test (.question :: (yes.lexemes ++ .colon :: (no.lexemes ++ rest)))
      = some (.cond test yes no, rest) := by
    rw [readMore]
    simp only [if_true, first, Option.bind_eq_bind, Option.bind_some]
    show ((readExpr d 0 (no.lexemes ++ rest)).bind _) = _
    rw [second]
    rfl
  rw [whole]
  -- nothing more is read behind a conditional expression
  exact (readMore_of_stops stops (.inr rfl) (by omega)).symm.trans (later (2 * rest.length + 1) (by omega))

end

/-- Every legible expression is found. -/
theorem found_of_legible {e : Expr} (h : e.legible = true) : Found e ∧ (6 ≤ e.level → FoundAsOperand e) := by
  have operand {e : Expr} (h : FoundAsOperand e) : Found e ∧ (6 ≤ e.level → FoundAsOperand e) :=
    ⟨Found.of_operand h, fun _ => h⟩
  induction e with
  | lit n => exact operand (foundAsOperand_lit n)
  | var x => exact operand (foundAsOperand_var x)
  | cell index ih => exact operand (foundAsOperand_cell (ih h).1)
  | call f argument ih =>
    rw [Expr.legible, Bool.and_eq_true] at h
    exact operand (foundAsOperand_call f (ih h.2).1)
  | toByte e ih =>
    simp only [Expr.legible, Bool.and_eq_true, decide_eq_true_eq] at h
    exact operand (foundAsOperand_toByte ((ih h.2).2 h.1) h.1)
  | neg e ih =>
    simp only [Expr.legible, Bool.and_eq_true, decide_eq_true_eq] at h
    exact operand (foundAsOperand_neg ((ih h.2).2 h.1.1) h.1.1)
  | paren e ih => exact operand (foundAsOperand_paren (ih h).1)
  | binary o left right ihl ihr =>
    simp only [Expr.legible, Bool.and_eq_true, decide_eq_true_eq] at h
    refine ⟨found_binary (ihl h.1.2).1 (ihr h.2).1 h.1.1.1 h.1.1.2, fun level => ?_⟩
    have := level_le o
    simp only [Expr.level] at level
    omega
  | cond test yes no iht ihy ihn =>
    simp only [Expr.legible, Bool.and_eq_true, decide_eq_true_eq] at h
    exact ⟨found_cond (iht h.1.1.2).1 (ihy h.1.2).1 (ihn h.2).1 h.1.1.1,
      fun level => absurd level (by simp [Expr.level])⟩

theorem readExpr_lexemes {e : Expr} (h : e.legible = true) {rest : List Lexeme} (stops : Stops 0 rest) :
    Expr.read? (e.lexemes ++ rest) = some (e, rest) :=
  Found.closed (found_of_legible h).1 stops (by omega)

/-! ### Items with commas between them -/

theorem withCommas_cons (item : List Lexeme) (items : List (List Lexeme)) :
    ∃ more, withCommas (item :: items) = item ++ more := by
  cases items with
  | nil => exact ⟨[], by rw [withCommas, List.intercalate_singleton, List.append_nil]⟩
  | cons item' items =>
    refine ⟨[Lexeme.comma] ++ withCommas (item' :: items), ?_⟩
    rw [withCommas, List.intercalate_cons_cons, List.append_assoc, ← withCommas]

theorem length_le_withCommas (items : List (List Lexeme)) : items.length ≤ (withCommas items).length + 1 := by
  induction items with
  | nil => exact Nat.zero_le _
  | cons item items ih =>
    cases items with
    | nil => simp
    | cons item' items =>
      rw [withCommas, List.intercalate_cons_cons, ← withCommas]
      simp only [List.length_cons, List.length_append, List.length_nil] at ih ⊢
      omega

theorem readItems_withCommas {α : Type} {item : List Lexeme → Option (α × List Lexeme)} {lexemes : α → List Lexeme}
    {last : Lexeme} (differs : last ≠ .comma) {rest : List Lexeme} {xs : List α} (nonempty : xs ≠ [])
    (h : ∀ x ∈ xs, ∀ l more, l = .comma ∨ l = last → item (lexemes x ++ l :: more) = some (x, l :: more))
    {depth : Nat}
    (enough : xs.length ≤ depth) :
    readItems item last depth (withCommas (xs.map lexemes) ++ last :: rest) = some (xs, rest) := by
  induction xs generalizing depth with
  | nil => exact absurd rfl nonempty
  | cons x xs ih =>
    obtain ⟨depth, rfl⟩ := Nat.exists_eq_succ_of_ne_zero (Nat.ne_of_gt (Nat.lt_of_lt_of_le (Nat.succ_pos _) enough))
    cases xs with
    | nil =>
      have read := h x (by simp) last rest (.inr rfl)
      simp only [List.map_cons, List.map_nil, withCommas, List.intercalate_singleton, readItems, read,
        Option.bind_eq_bind, Option.bind_some, if_true]
    | cons y xs =>
      have read := h x (by simp) .comma (withCommas ((y :: xs).map lexemes) ++ last :: rest) (.inl rfl)
      have later : readItems item last depth (withCommas ((y :: xs).map lexemes) ++ last :: rest)
          = some (y :: xs, rest) :=
        ih (by simp) (fun z hz => h z (List.mem_cons_of_mem x hz)) (Nat.le_of_succ_le_succ enough)
      have front : withCommas ((x :: y :: xs).map lexemes) ++ last :: rest
          = lexemes x ++ .comma :: (withCommas ((y :: xs).map lexemes) ++ last :: rest) := by
        simp only [List.map_cons, withCommas, List.intercalate_cons_cons, List.append_assoc, List.cons_append,
          List.nil_append]
      rw [front, readItems, read]
      show ((readItems item last depth (withCommas ((y :: xs).map lexemes) ++ last :: rest)).bind _) = _
      rw [later]
      rfl

/-! ### Statements -/

theorem stops_of_end {l : Lexeme} {more : List Lexeme} (h : l = .comma ∨ l = .semicolon ∨ l = .closeParen) :
    Stops 0 (l :: more) := by
  rcases h with rfl | rfl | rfl <;> trivial

theorem readInit_lexemes {init : String × Expr} (h : (isName init.1 && init.2.legible) = true) {l : Lexeme}
    {more : List Lexeme} (hl : l = .comma ∨ l = .semicolon) :
    readInit ([Lexeme.name init.1] ++ [Lexeme.becomes] ++ init.2.lexemes ++ l :: more) = some (init, l :: more) := by
  rw [Bool.and_eq_true] at h
  have stops : Stops 0 (l :: more) := stops_of_end (by rcases hl with rfl | rfl <;> simp)
  show (Expr.read? (init.2.lexemes ++ l :: more)).bind _ = _
  rw [readExpr_lexemes h.2 stops]
  rfl

theorem readAssignment_assign {place : Place} {value : Expr} (h : value.legible = true) (rest : List Lexeme) :
    readAssignment place (.becomes :: (value.lexemes ++ .semicolon :: rest)) = some (.assign place value, rest) := by
  have read : Expr.read? (value.lexemes ++ .semicolon :: rest) = some (value, .semicolon :: rest) :=
    readExpr_lexemes h trivial
  rw [readAssignment, read]
  rfl

theorem readAssignment_addAssign {place : Place} {value : Expr} (h : value.legible = true) (rest : List Lexeme) :
    readAssignment place (.increase :: (value.lexemes ++ .semicolon :: rest))
      = some (.addAssign place value, rest) := by
  have read : Expr.read? (value.lexemes ++ .semicolon :: rest) = some (value, .semicolon :: rest) :=
    readExpr_lexemes h trivial
  rw [readAssignment, read]
  rfl

/-- A place is read in front of what is assigned to it. -/
theorem readSimple_place {place : Place} (h : place.legible = true) {l : Lexeme} (hl : l = .becomes ∨ l = .increase)
    (rest : List Lexeme) : readSimple (place.lexemes ++ l :: rest) = readAssignment place (l :: rest) := by
  cases place with
  | var x => rcases hl with rfl | rfl <;> rfl
  | cell index =>
    simp only [Place.lexemes, Expr.lexemes, List.cons_append, List.nil_append, List.append_assoc]
    have read : Expr.read? (index.lexemes ++ .closeBracket :: l :: rest) = some (index, .closeBracket :: l :: rest) :=
      readExpr_lexemes h trivial
    rw [readSimple, read]
    rfl

theorem readSimple_declare (t : Ty) {inits : List (String × Expr)} (nonempty : inits ≠ [])
    (legible : ∀ init ∈ inits, (isName init.1 && init.2.legible) = true) (rest : List Lexeme) :
    readSimple ((Stmt.declare t inits).lexemes ++ rest) = some (.declare t inits, rest) := by
  let lexemes (init : String × Expr) : List Lexeme := [Lexeme.name init.1] ++ [Lexeme.becomes] ++ init.2.lexemes
  obtain ⟨init, inits, rfl⟩ := List.exists_cons_of_ne_nil nonempty
  let behind := withCommas ((init :: inits).map lexemes) ++ .semicolon :: rest
  have read : readItems readInit .semicolon behind.length behind = some (init :: inits, rest) := by
    refine readItems_withCommas (show Lexeme.semicolon ≠ .comma from nofun) nonempty
      (fun init hi l more hl => readInit_lexemes (legible init hi) hl) ?_
    have := length_le_withCommas ((init :: inits).map lexemes)
    rw [List.length_map] at this
    simp only [behind, List.length_append, List.length_cons] at this ⊢
    omega
  -- the first value does not start like a request for a byte
  have first : readSimple (.type t :: behind)
      = (readItems readInit .semicolon behind.length behind).bind fun found =>
        some (.declare t found.1, found.2) := by
    obtain ⟨more, hm⟩ := withCommas_cons (lexemes init) (inits.map lexemes)
    obtain ⟨l, ls, head, starts⟩ := exists_head init.2
    have e : behind = .name init.1 :: .becomes :: l :: (ls ++ more ++ .semicolon :: rest) := by
      show withCommas (lexemes init :: inits.map lexemes) ++ .semicolon :: rest = _
      rw [hm]
      simp only [lexemes, head, List.cons_append, List.nil_append]
    rw [e]
    cases t with
    | int =>
      cases l with
      | getchar => cases starts
      | _ => rfl
    | _ => rfl
  have e : (Stmt.declare t (init :: inits)).lexemes ++ rest = .type t :: behind := by
    simp only [Stmt.lexemes, behind, lexemes, List.append_assoc, List.cons_append, List.nil_append]
  rw [e, first, read]
  rfl

theorem readSimple_call (f : String) {arguments : List Expr} (nonempty : arguments ≠ [])
    (legible : ∀ e ∈ arguments, e.legible = true) (rest : List Lexeme) :
    readSimple ((Stmt.call f arguments).lexemes ++ rest) = some (.call f arguments, rest) := by
  let behind := withCommas (arguments.map Expr.lexemes) ++ .closeParen :: .semicolon :: rest
  have read : readItems Expr.read? .closeParen behind.length behind = some (arguments, .semicolon :: rest) := by
    refine readItems_withCommas (show Lexeme.closeParen ≠ .comma from nofun) nonempty
      (fun e he l more hl => readExpr_lexemes (legible e he) (stops_of_end (by rcases hl with rfl | rfl <;> simp))) ?_
    have := length_le_withCommas (arguments.map Expr.lexemes)
    rw [List.length_map] at this
    simp only [behind, List.length_append, List.length_cons] at this ⊢
    omega
  have e : (Stmt.call f arguments).lexemes ++ rest = .name f :: .openParen :: behind := by
    simp only [Stmt.lexemes, behind, List.append_assoc, List.cons_append, List.nil_append]
  rw [e, readSimple, read]
  rfl

/-- A statement that contains no others is read whatever follows it. -/
theorem readSimple_lexemes {s : Stmt} (h : s.legible = true) (simple : s.isSimple = true) (rest : List Lexeme) :
    readSimple (s.lexemes ++ rest) = some (s, rest) := by
  cases s with
  | declare t inits =>
    rw [Stmt.legible, Bool.and_eq_true, List.all_eq_true] at h
    exact readSimple_declare t (by simpa using h.1) h.2 rest
  | assign place value =>
    rw [Stmt.legible, Bool.and_eq_true] at h
    simp only [Stmt.lexemes, List.append_assoc, List.cons_append, List.nil_append]
    rw [readSimple_place h.1 (.inl rfl), readAssignment_assign h.2]
  | addAssign place value =>
    rw [Stmt.legible, Bool.and_eq_true] at h
    simp only [Stmt.lexemes, List.append_assoc, List.cons_append, List.nil_append]
    rw [readSimple_place h.1 (.inr rfl), readAssignment_addAssign h.2]
  | call f arguments =>
    rw [Stmt.legible, Bool.and_eq_true, Bool.and_eq_true, List.all_eq_true] at h
    exact readSimple_call f (by simpa using h.1.2) h.2 rest
  | putchar byte =>
    have read : Expr.read? (byte.lexemes ++ .closeParen :: .semicolon :: rest)
      = some (byte, .closeParen :: .semicolon :: rest) := readExpr_lexemes h trivial
    simp only [Stmt.lexemes, List.append_assoc, List.cons_append, List.nil_append]
    rw [readSimple, read]
    rfl
  | flush => rfl
  | getchar x => rfl
  | discard x => rfl
  | ret value =>
    have read : Expr.read? (value.lexemes ++ .semicolon :: rest) = some (value, .semicolon :: rest) :=
      readExpr_lexemes h trivial
    simp only [Stmt.lexemes, List.append_assoc, List.cons_append, List.nil_append]
    rw [readSimple, read]
    rfl
  | ifThen _ _ | whileDo _ _ | countDown _ _ | block _ => cases simple

theorem readStatement_of_isSimple {s : Stmt} (simple : s.isSimple = true) (rest : List Lexeme) (depth : Nat) :
    readStatement (depth + 1) (s.lexemes ++ rest) = readSimple (s.lexemes ++ rest) := by
  cases s with
  | assign place _ | addAssign place _ =>
    cases place with
    | var x => rfl
    | cell index => rfl
  | ifThen _ _ | whileDo _ _ | countDown _ _ | block _ => cases simple
  | _ => rfl

/-- A statement does not start with the end of a block. -/
theorem exists_head_stmt (s : Stmt) : ∃ l ls, s.lexemes = l :: ls ∧ l ≠ .closeBrace := by
  cases s with
  | assign place _ | addAssign place _ =>
    cases place with
    | var x => exact ⟨_, _, rfl, nofun⟩
    | cell index => exact ⟨_, _, rfl, nofun⟩
  | _ => exact ⟨_, _, rfl, nofun⟩

theorem readBody_of_readStatement {body : Stmt} {ls rest : List Lexeme} {depth : Nat}
    (read : readStatement depth ls = some (body, rest)) (h : body.isDeclaration = false) :
    readBody (depth + 1) ls = some (body, rest) := by
  rw [readBody, read]
  simp [h]

theorem readBlock_cons {s : Stmt} {rest : List Lexeme} {depth : Nat} :
    readBlock (depth + 1) (s.lexemes ++ rest) = (do
      let (s, rest) ← readStatement depth (s.lexemes ++ rest)
      let (more, rest) ← readBlock depth rest
      return (s :: more, rest)) := by
  obtain ⟨l, ls, head, differs⟩ := exists_head_stmt s
  rw [head, List.cons_append]
  cases l with
  | closeBrace => exact absurd rfl differs
  | _ => rfl

mutual

/-- Every legible statement is read, whatever follows it. -/
theorem readStatement_lexemes : (s : Stmt) → s.legible = true → ∀ {rest : List Lexeme} {depth : Nat},
    2 * (s.lexemes ++ rest).length < depth → readStatement depth (s.lexemes ++ rest) = some (s, rest)
  | .ifThen test body, h, rest, depth + 1, enough | .whileDo test body, h, rest, depth + 1, enough => by
    simp only [Stmt.legible, Bool.and_eq_true, Bool.not_eq_true'] at h
    simp only [Stmt.lexemes, List.append_assoc, List.cons_append, List.nil_append, List.length_cons,
      List.length_append] at enough ⊢
    have read : Expr.read? (test.lexemes ++ .closeParen :: (body.lexemes ++ rest))
      = some (test, .closeParen :: (body.lexemes ++ rest)) := readExpr_lexemes h.1.1 trivial
    obtain ⟨depth, rfl⟩ := Nat.exists_eq_succ_of_ne_zero (show depth ≠ 0 by omega)
    have inner : readStatement depth (body.lexemes ++ rest) = some (body, rest) :=
      readStatement_lexemes body h.2 (by rw [List.length_append]; omega)
    rw [readStatement, read]
    show ((readBody (depth + 1) (body.lexemes ++ rest)).bind _) = _
    rw [readBody_of_readStatement inner h.1.2]
    rfl
  | .countDown x body, h, rest, depth + 1, enough => by
    simp only [Stmt.legible, Bool.and_eq_true, Bool.not_eq_true'] at h
    simp only [Stmt.lexemes, List.cons_append, List.nil_append, List.length_cons, List.length_append] at enough ⊢
    have read : Expr.read? (.name x :: .decrease :: .closeParen :: (body.lexemes ++ rest))
      = some (.var x, .decrease :: .closeParen :: (body.lexemes ++ rest)) :=
        readExpr_lexemes (e := .var x) h.1.1 trivial
    obtain ⟨depth, rfl⟩ := Nat.exists_eq_succ_of_ne_zero (show depth ≠ 0 by omega)
    have inner : readStatement depth (body.lexemes ++ rest) = some (body, rest) :=
      readStatement_lexemes body h.2 (by rw [List.length_append]; omega)
    rw [readStatement, read]
    show ((readBody (depth + 1) (body.lexemes ++ rest)).bind _) = _
    rw [readBody_of_readStatement inner h.1.2]
    rfl
  | .block body, h, rest, depth + 1, enough => by
    rw [Stmt.legible] at h
    simp only [Stmt.lexemes, List.cons_append, List.nil_append, List.length_cons, List.length_append] at enough
    simp only [Stmt.lexemes, List.cons_append, List.nil_append, List.append_assoc]
    have inner : readBlock depth (lexemesOfAll body ++ .closeBrace :: rest) = some (body, rest) :=
      readBlock_lexemes body h (by rw [List.length_append, List.length_cons]; omega)
    rw [readStatement, inner]
    rfl
  | .declare _ _, h, rest, depth + 1, _ | .assign _ _, h, rest, depth + 1, _ | .addAssign _ _, h, rest, depth + 1, _
  | .call _ _, h, rest, depth + 1, _ | .putchar _, h, rest, depth + 1, _ | .flush, h, rest, depth + 1, _
  | .getchar _, h, rest, depth + 1, _ | .discard _, h, rest, depth + 1, _ | .ret _, h, rest, depth + 1, _ => by
    rw [readStatement_of_isSimple rfl, readSimple_lexemes h rfl]

/-- The statements of a block are read up to its end. -/
theorem readBlock_lexemes : (ss : List Stmt) → legibleAll ss = true → ∀ {rest : List Lexeme} {depth : Nat},
    2 * (lexemesOfAll ss ++ .closeBrace :: rest).length + 1 < depth →
      readBlock depth (lexemesOfAll ss ++ .closeBrace :: rest) = some (ss, rest)
  | [], _, rest, depth + 1, _ => by
    rw [lexemesOfAll]
    rfl
  | s :: ss, h, rest, depth + 1, enough => by
    rw [legibleAll, Bool.and_eq_true] at h
    simp only [lexemesOfAll, List.append_assoc, List.length_append, List.length_cons] at enough ⊢
    have first : readStatement depth (s.lexemes ++ (lexemesOfAll ss ++ .closeBrace :: rest))
      = some (s, lexemesOfAll ss ++ .closeBrace :: rest) :=
        readStatement_lexemes s h.1 (by simp only [List.length_append, List.length_cons]; omega)
    obtain ⟨l, ls, head, -⟩ := exists_head_stmt s
    rw [head, List.length_cons] at enough
    have later : readBlock depth (lexemesOfAll ss ++ .closeBrace :: rest) = some (ss, rest) :=
      readBlock_lexemes ss h.2 (by simp only [List.length_append, List.length_cons]; omega)
    rw [readBlock_cons, first]
    show ((readBlock depth (lexemesOfAll ss ++ .closeBrace :: rest)).bind _) = _
    rw [later]
    rfl

end

theorem readBlock?_lexemes {ss : List Stmt} (h : legibleAll ss = true) (rest : List Lexeme) :
    Stmt.readBlock? (lexemesOfAll ss ++ .closeBrace :: rest) = some (ss, rest) :=
  readBlock_lexemes ss h (by omega)

/-! ### Files -/

theorem isPrefixOf?_append {α : Type} [BEq α] [LawfulBEq α] (a b : List α) : a.isPrefixOf? (a ++ b) = some b := by
  induction a with
  | nil => cases b <;> rfl
  | cons x a ih => rw [List.cons_append, List.isPrefixOf?, if_pos (beq_self_eq_true x), ih]

theorem readFunctions_lexemes {fs : List Function} (h : fs.all Function.legible = true) (rest : List Lexeme)
    {depth : Nat} (enough : fs.length < depth) :
    readFunctions depth (fs.flatMap Function.lexemes ++ (File.mainHeader ++ rest))
      = some (fs, File.mainHeader ++ rest) := by
  induction fs generalizing depth with
  | nil =>
    obtain ⟨depth, rfl⟩ := Nat.exists_eq_succ_of_ne_zero (Nat.ne_of_gt (Nat.zero_lt_of_lt enough))
    rfl
  | cons f fs ih =>
    obtain ⟨depth, rfl⟩ := Nat.exists_eq_succ_of_ne_zero (Nat.ne_of_gt (Nat.zero_lt_of_lt enough))
    rw [List.all_cons, Bool.and_eq_true] at h
    have legible := h.1
    simp only [Function.legible, Bool.and_eq_true, Bool.not_eq_true', List.all_eq_true] at legible
    let lexemes (parameter : Ty × String) : List Lexeme := [Lexeme.type parameter.1] ++ [Lexeme.name parameter.2]
    let behind := fs.flatMap Function.lexemes ++ (File.mainHeader ++ rest)
    let body := lexemesOfAll f.body ++ .closeBrace :: behind
    let parameters := withCommas (f.parameters.map lexemes) ++ .closeParen :: .openBrace :: body
    have front : (f :: fs).flatMap Function.lexemes ++ (File.mainHeader ++ rest)
        = .static :: .type f.result :: .name f.name :: .openParen :: parameters := by
      simp only [List.flatMap_cons, Function.lexemes, parameters, body, behind, lexemes, List.append_assoc,
        List.cons_append, List.nil_append]
    have read : readItems readParameter .closeParen parameters.length parameters
        = some (f.parameters, .openBrace :: body) := by
      refine readItems_withCommas (show Lexeme.closeParen ≠ .comma by decide) (by simpa using legible.1.1.2)
        (fun _ _ _ _ _ => rfl) ?_
      have := length_le_withCommas (f.parameters.map lexemes)
      rw [List.length_map] at this
      simp only [parameters, List.length_append, List.length_cons] at this ⊢
      omega
    have inner : Stmt.readBlock? body = some (f.body, behind) := readBlock?_lexemes legible.2 behind
    have later : readFunctions depth behind = some (fs, File.mainHeader ++ rest) :=
      ih h.2 (Nat.lt_of_succ_lt_succ enough)
    rw [front, readFunctions, read]
    show ((Stmt.readBlock? body).bind _) = _
    rw [inner]
    show ((readFunctions depth behind).bind _) = _
    rw [later]
    rfl

theorem length_le_lexemes (fs : List Function) : fs.length ≤ (fs.flatMap Function.lexemes).length := by
  induction fs with
  | nil => exact Nat.zero_le _
  | cons f fs ih =>
    simp only [List.flatMap_cons, Function.lexemes, List.length_append, List.length_cons, List.length_nil]
    omega

theorem legibleAll_iff {ss : List Stmt} : legibleAll ss = true ↔ ∀ s ∈ ss, s.legible = true := by
  induction ss with
  | nil => simp [legibleAll]
  | cons s ss ih => rw [legibleAll, Bool.and_eq_true, ih, List.forall_mem_cons]

namespace File

theorem withoutEnding?_body (f : File) : withoutEnding? f.body = some f.main := by
  rw [withoutEnding?, body, List.reverse_append]
  show some f.main.reverse.reverse = _
  rw [List.reverse_reverse]

/-- A legible file is read from its lexemes. -/
theorem ofLexemes?_lexemes {f : File} (h : f.legible = true) : ofLexemes? f.tapeLength f.lexemes = some f := by
  rw [legible, Bool.and_eq_true] at h
  let rest := lexemesOfAll f.body ++ [Lexeme.closeBrace]
  let behind := f.functions.flatMap Function.lexemes ++ (mainHeader ++ rest)
  have count := length_le_lexemes f.functions
  have functions : readFunctions (behind.length + 1) behind = some (f.functions, mainHeader ++ rest) :=
    readFunctions_lexemes h.1 rest (by simp only [behind, List.length_append]; omega)
  have legible : legibleAll f.body = true := by
    rw [legibleAll_iff] at h ⊢
    rw [File.body, List.forall_mem_append]
    exact ⟨h.2, legibleAll_iff.1 rfl⟩
  have body : Stmt.readBlock? rest = some (f.body, []) :=
    readBlock?_lexemes legible []
  have globals' : globals.isPrefixOf? f.lexemes = some behind := isPrefixOf?_append globals behind
  simp only [ofLexemes?, globals', functions, isPrefixOf?_append, body, withoutEnding?_body, Option.bind_eq_bind,
    Option.bind_some, List.isEmpty_nil, if_true]
  rfl

/-- A legible file is read from its text. -/
theorem ofText?_render {f : File} (h : f.legible = true) : ofText? f.render = some f := by
  let directives := "\n#include <stdio.h>\n#include <stdint.h>\n".toList
  let below := (Line.renderAll f.linesBelow).toList
  let digits := Nat.toDigits 10 f.tapeLength
  have shown : (toString f.tapeLength).toList = digits := Nat.toList_repr
  have text : f.render.toList = ("#define " ++ lengthName ++ " ").toList ++ (digits ++ (directives ++ below)) := by
    rw [render_eq]
    simp only [String.toList_append, shown, List.append_assoc, directives, below]
  have digit : ∀ c ∈ digits, c.isDigit = true := fun c hc => Nat.isDigit_of_mem_toDigits (by decide) (by decide) hc
  have stop : (directives ++ below).takeWhile Char.isDigit = [] := rfl
  have rest : (directives ++ below).dropWhile Char.isDigit = directives ++ below := rfl
  have taken : (digits ++ (directives ++ below)).takeWhile Char.isDigit = digits := by
    rw [List.takeWhile_append_of_pos digit, stop, List.append_nil]
  have dropped : (digits ++ (directives ++ below)).dropWhile Char.isDigit = directives ++ below := by
    rw [List.dropWhile_append_of_pos digit, rest]
  have lexed : lex? below = some f.lexemes := spells_linesBelow h
  have length : decimal? digits = some f.tapeLength := decimal?_toDigits f.tapeLength
  simp only [ofText?, text, isPrefixOf?_append, Option.bind_eq_bind, Option.bind_some, taken, dropped, length]
  show ((directives.isPrefixOf? (directives ++ below)).bind _) = _
  rw [isPrefixOf?_append]
  show ((lex? below).bind _) = _
  rw [lexed]
  exact ofLexemes?_lexemes h

end File

end TapeLang.C
