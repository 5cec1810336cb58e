import Mathlib
import TapeLang.C.Reader

/-!
# The lexemes of printed syntax

Two texts can be taken apart one after the other if no piece goes across the place where they meet
(`lex?_append`).  Everything that is printed has blanks, brackets or operators where its parts meet, so its lexemes
are known from its parts (`spells_expr`, `spells_stmt`).  The names have to be names, and what follows a sign must
not start with one (`Expr.legible`, `Stmt.legible`).
-/

namespace TapeLang.C

/-! ### Pieces -/

theorem attach_of_sticky {c d : Char} {piece : List Char} {rest : List (List Char)} (h : sticky c d = true) :
    attach c ((d :: piece) :: rest) = (c :: d :: piece) :: rest := by
  rw [attach, if_pos h]

theorem attach_of_not_sticky {c d : Char} {piece : List Char} {rest : List (List Char)} (h : sticky c d = false) :
    attach c ((d :: piece) :: rest) = [c] :: (d :: piece) :: rest := by
  rw [attach, if_neg (by simp [h])]

/-- The first piece of a text starts with its first character. -/
theorem pieces_cons (c : Char) (text : List Char) : ∃ piece rest, pieces (c :: text) = (c :: piece) :: rest := by
  show ∃ piece rest, attach c (pieces text) = (c :: piece) :: rest
  rcases pieces text with _ | ⟨_ | ⟨d, piece⟩, rest⟩
  · exact ⟨[], [], rfl⟩
  · exact ⟨[], [] :: rest, rfl⟩
  · cases h : sticky c d with
    | true => exact ⟨d :: piece, rest, attach_of_sticky h⟩
    | false => exact ⟨[], (d :: piece) :: rest, attach_of_not_sticky h⟩

/-- No piece goes across the place where two texts meet. -/
def Apart (a b : List Char) : Prop := ∀ x ∈ a.getLast?, ∀ y ∈ b.head?, sticky x y = false

theorem pieces_append {a b : List Char} (apart : Apart a b) : pieces (a ++ b) = pieces a ++ pieces b := by
  induction a with
  | nil => rfl
  | cons c a ih =>
    show attach c (pieces (a ++ b)) = attach c (pieces a) ++ pieces b
    cases a with
    | nil =>
      cases b with
      | nil => rfl
      | cons d b =>
        obtain ⟨piece, rest, h⟩ := pieces_cons d b
        have loose : sticky c d = false := apart c rfl d rfl
        rw [List.nil_append, h, attach_of_not_sticky loose]
        rfl
    | cons d a =>
      obtain ⟨piece, rest, h⟩ := pieces_cons d a
      have apart' : Apart (d :: a) b := by
        intro x hx
        exact apart x (by rw [List.getLast?_cons_cons]; exact hx)
      rw [ih apart', h]
      cases hc : sticky c d with
      | true => rw [List.cons_append, attach_of_sticky hc, attach_of_sticky hc, List.cons_append]
      | false => rw [List.cons_append, attach_of_not_sticky hc, attach_of_not_sticky hc]; rfl

theorem pieces_word {word : List Char} (h : ∀ c ∈ word, isWordChar c = true) (ne : word ≠ []) :
    pieces word = [word] := by
  induction word with
  | nil => exact absurd rfl ne
  | cons c word ih =>
    show attach c (pieces word) = [c :: word]
    cases word with
    | nil => rfl
    | cons d word =>
      have same : sticky c d = true := by
        rw [sticky, h c (by simp), h d (by simp)]
        rfl
      rw [ih (fun x hx => h x (List.mem_cons_of_mem c hx)) (by simp), attach_of_sticky same]

/-! ### Texts that meet -/

theorem lex?_append {a b : List Char} {la lb : List Lexeme} (apart : Apart a b) (ha : lex? a = some la)
    (hb : lex? b = some lb) : lex? (a ++ b) = some (la ++ lb) := by
  rw [lex?] at ha hb
  rw [lex?, pieces_append apart, List.filter_append, List.mapM_append, ha, hb]
  rfl

/-- A text has these lexemes. -/
def Spells (text : String) (ls : List Lexeme) : Prop := lex? text.toList = some ls

instance (text : String) (ls : List Lexeme) : Decidable (Spells text ls) := inferInstanceAs (Decidable (_ = _))

/-- Characters that no piece goes across. -/
def isLoose (c : Char) : Bool := !isWordChar c && !isOperatorChar c

def LooseStart (text : String) : Prop := text.toList.head?.any isLoose = true

def LooseEnd (text : String) : Prop := text.toList.getLast?.any isLoose = true

instance (text : String) : Decidable (LooseStart text) := inferInstanceAs (Decidable (_ = _))

instance (text : String) : Decidable (LooseEnd text) := inferInstanceAs (Decidable (_ = _))

theorem sticky_of_loose {a b : Char} (h : isLoose a = true ∨ isLoose b = true) : sticky a b = false := by
  simp only [isLoose, Bool.and_eq_true, Bool.not_eq_true'] at h
  rcases h with ⟨h, h'⟩ | ⟨h, h'⟩
  · rw [sticky, h, h']
    rfl
  · rw [sticky, h, h', Bool.and_false, Bool.and_false]
    rfl

variable {a b : String} {la lb : List Lexeme}

theorem Spells.append (apart : Apart a.toList b.toList) (ha : Spells a la) (hb : Spells b lb) :
    Spells (a ++ b) (la ++ lb) := by
  rw [Spells, String.toList_append]
  exact lex?_append apart ha hb

theorem Spells.append_of_looseEnd (ha : Spells a la) (loose : LooseEnd a) (hb : Spells b lb) :
    Spells (a ++ b) (la ++ lb) :=
  .append (fun x hx _ _ => sticky_of_loose (.inl (by rwa [LooseEnd, Option.mem_def.1 hx] at loose))) ha hb

theorem Spells.append_of_looseStart (ha : Spells a la) (loose : LooseStart b) (hb : Spells b lb) :
    Spells (a ++ b) (la ++ lb) :=
  .append (fun _ _ y hy => sticky_of_loose (.inr (by rwa [LooseStart, Option.mem_def.1 hy] at loose))) ha hb

theorem looseEnd_append (h : LooseEnd b) : LooseEnd (a ++ b) := by
  obtain ⟨x, hx, loose⟩ := (Option.any_eq_true _ _).1 h
  rw [LooseEnd, String.toList_append, List.getLast?_append, hx]
  exact loose

/-! ### Phrases -/

/-- Fixed texts that anything can follow. -/
inductive Phrase
  | openParen
  | index
  | cast
  | putchar
  | int
  | discard
  | ret
  | test
  | loop
  | decrease
  | static
  | openBrace
  | closeBrace
  | flush
  | array
  | cursor
  | main

namespace Phrase

def text : Phrase → String
  | openParen => "("
  | index => "tape["
  | cast => "(" ++ Ty.uint8.text ++ ")"
  | putchar => "putchar("
  | int => "int "
  | discard => "(void)"
  | ret => "return "
  | test => "if ("
  | loop => "while ("
  | decrease => "--) "
  | static => "static "
  | openBrace => "\x7b"
  | closeBrace => "\x7d"
  | flush => "fflush(stdout);"
  | array => "static uint8_t tape[" ++ lengthName ++ "];"
  | cursor => "static long " ++ cursorName ++ " = 0;"
  | main => "int main(void) \x7b"

def lexemes : Phrase → List Lexeme
  | openParen => [.openParen]
  | index => [.tape, .openBracket]
  | cast => [.openParen, .type .uint8, .closeParen]
  | putchar => [.putchar, .openParen]
  | int => [.type .int]
  | discard => [.openParen, .type .void, .closeParen]
  | ret => [.returnWord]
  | test => [.ifWord, .openParen]
  | loop => [.whileWord, .openParen]
  | decrease => [.decrease, .closeParen]
  | static => [.static]
  | openBrace => [.openBrace]
  | closeBrace => [.closeBrace]
  | flush => [.fflush, .openParen, .stdout, .closeParen, .semicolon]
  | array => [.static, .type .uint8, .tape, .openBracket, .name lengthName, .closeBracket, .semicolon]
  | cursor => [.static, .type .long, .name cursorName, .becomes, .number 0, .semicolon]
  | main => File.mainHeader

theorem spells (p : Phrase) : Spells p.text p.lexemes := by
  cases p <;> decide +kernel

theorem looseEnd (p : Phrase) : LooseEnd p.text := by
  cases p <;> decide +kernel

end Phrase

/-- Fixed texts that anything can follow and that can follow anything. -/
inductive Separator
  | blank
  | newline
  | openParen
  | closeParen
  | closeLabel
  | closeCall
  | closeHeader
  | closeBracket
  | semicolon
  | comma
  | becomes
  | increase
  | received
  | question
  | colon
  | op (o : Op)

namespace Separator

def text : Separator → String
  | blank => " "
  | newline => "\n"
  | openParen => "("
  | closeParen => ")"
  | closeLabel => ") "
  | closeCall => ");"
  | closeHeader => ") \x7b"
  | closeBracket => "]"
  | semicolon => ";"
  | comma => ", "
  | becomes => " = "
  | increase => " += "
  | received => " = getchar();"
  | question => " ? "
  | colon => " : "
  | op o => " " ++ o.text ++ " "

def lexemes : Separator → List Lexeme
  | blank | newline => []
  | openParen => [.openParen]
  | closeParen | closeLabel => [.closeParen]
  | closeCall => [.closeParen, .semicolon]
  | closeHeader => [.closeParen, .openBrace]
  | closeBracket => [.closeBracket]
  | semicolon => [.semicolon]
  | comma => [.comma]
  | becomes => [.becomes]
  | increase => [.increase]
  | received => [.becomes, .getchar, .openParen, .closeParen, .semicolon]
  | question => [.question]
  | colon => [.colon]
  | op o => [.op o]

theorem spells (s : Separator) : Spells s.text s.lexemes := by
  cases s with
  | op o => cases o <;> decide +kernel
  | _ => decide +kernel

theorem loose (s : Separator) : LooseStart s.text ∧ LooseEnd s.text := by
  cases s with
  | op o => cases o <;> decide +kernel
  | _ => decide +kernel

end Separator

theorem Spells.behind (hb : Spells b lb) (p : Phrase) : Spells (p.text ++ b) (p.lexemes ++ lb) :=
  p.spells.append_of_looseEnd p.looseEnd hb

theorem Spells.before (ha : Spells a la) (s : Separator) : Spells (a ++ s.text) (la ++ s.lexemes) :=
  ha.append_of_looseStart s.loose.1 s.spells

/-- Two texts with a third one between them. -/
theorem Spells.between (ha : Spells a la) (s : Separator) (hb : Spells b lb) :
    Spells (a ++ s.text ++ b) (la ++ s.lexemes ++ lb) :=
  (ha.before s).append_of_looseEnd (looseEnd_append s.loose.2) hb

/-! ### Names and numbers -/

/-- A text that is read as a name. -/
def isName (x : String) : Bool := x.toList.all isWordChar && Lexeme.ofPiece? x.toList == some (.name x)

theorem all_word_of_isName {x : String} (h : isName x = true) : ∀ c ∈ x.toList, isWordChar c = true := by
  rw [isName, Bool.and_eq_true] at h
  exact List.all_eq_true.1 h.1

theorem isBlankChar_of_isWordChar {c : Char} (h : isWordChar c = true) : isBlankChar c = false := by
  cases hc : isBlankChar c with
  | false => rfl
  | true =>
    simp only [isBlankChar, Bool.or_eq_true, beq_iff_eq] at hc
    rcases hc with rfl | rfl
    · exact absurd h (by decide_cbv)
    · exact absurd h (by decide_cbv)

/-- A word is one lexeme. -/
theorem spells_word {x : String} {l : Lexeme} (h : ∀ c ∈ x.toList, isWordChar c = true) (ne : x.toList ≠ [])
    (hl : Lexeme.ofPiece? x.toList = some l) : Spells x [l] := by
  have visible : (x.toList.all isBlankChar) = false := by
    obtain ⟨c, cs, hx⟩ := List.exists_cons_of_ne_nil ne
    rw [hx] at h ⊢
    rw [List.all_cons, isBlankChar_of_isWordChar (h c (by simp)), Bool.false_and]
  rw [Spells, lex?, pieces_word h ne, List.filter_cons, visible]
  simp only [Bool.not_false, if_true, List.filter_nil, List.mapM_cons, hl, List.mapM_nil]
  rfl

theorem ne_of_isName {x : String} (h : isName x = true) : x.toList ≠ [] := by
  intro empty
  rw [isName, empty] at h
  exact absurd h (by simp [show Lexeme.ofPiece? [] = none from rfl])

theorem spells_name {x : String} (h : isName x = true) : Spells x [.name x] := by
  refine spells_word (all_word_of_isName h) (ne_of_isName h) ?_
  rw [isName, Bool.and_eq_true, beq_iff_eq] at h
  exact h.2

theorem decimal?_toDigits (n : Nat) : decimal? (Nat.toDigits 10 n) = some n := by
  rw [decimal?, Nat.ofDigitChars_ten_toDigits, if_pos rfl]

theorem isWordChar_of_isDigit {c : Char} (h : c.isDigit = true) : isWordChar c = true := by
  rw [isWordChar, Char.isAlphanum, h, Bool.or_true, Bool.true_or]

/-- No fixed lexeme starts with a digit. -/
theorem not_isDigit_of_fixed {l : Lexeme} (hl : l ∈ Lexeme.fixed) {c : Char} (hc : c ∈ l.text.toList.head?) :
    c.isDigit = false := by
  have heads : (Lexeme.fixed.all fun l => !l.text.toList.head?.any Char.isDigit) = true := by decide_cbv
  have head := List.all_eq_true.1 heads l hl
  rwa [Option.mem_def.1 hc, Option.any_some, Bool.not_eq_true'] at head

theorem spells_number (n : Nat) : Spells (toString n) [.number n] := by
  have digits : (toString n).toList = Nat.toDigits 10 n := Nat.toList_repr
  have digit (c : Char) (hc : c ∈ Nat.toDigits 10 n) : c.isDigit = true :=
    Nat.isDigit_of_mem_toDigits (by decide) (by decide) hc
  have ne : Nat.toDigits 10 n ≠ [] := Nat.toDigits_ne_nil
  have piece : Lexeme.ofPiece? (Nat.toDigits 10 n) = some (.number n) := by
    have none_fixed : (Lexeme.fixed.find? fun l => l.text == String.ofList (Nat.toDigits 10 n)) = none := by
      rw [List.find?_eq_none]
      intro l hl same
      rw [beq_iff_eq] at same
      obtain ⟨c, cs, h⟩ := List.exists_cons_of_ne_nil ne
      have nondigit := not_isDigit_of_fixed hl (c := c) (by rw [same, String.toList_ofList, h]; rfl)
      rw [digit c (by rw [h]; simp)] at nondigit
      cases nondigit
    obtain ⟨c, cs, h⟩ := List.exists_cons_of_ne_nil ne
    have first : c.isDigit = true := digit c (by rw [h]; simp)
    unfold Lexeme.ofPiece?
    rw [none_fixed]
    have value := decimal?_toDigits n
    rw [h] at value ⊢
    simp only [first, if_true, value, Option.map_some]
  refine spells_word ?_ ?_ ?_
  · rw [digits]
    exact fun c hc => isWordChar_of_isDigit (digit c hc)
  · rw [digits]
    exact ne
  · rw [digits]
    exact piece

/-! ### Expressions -/

namespace Expr

def lexemes : Expr → List Lexeme
  | lit value => [.number value]
  | var x => [.name x]
  | cell index => [Lexeme.tape, .openBracket] ++ index.lexemes ++ [Lexeme.closeBracket]
  | call f argument => [Lexeme.name f] ++ [Lexeme.openParen] ++ argument.lexemes ++ [Lexeme.closeParen]
  | toByte e => [Lexeme.openParen, .type .uint8, .closeParen] ++ e.lexemes
  | neg e => [Lexeme.op .sub] ++ e.lexemes
  | paren e => [Lexeme.openParen] ++ e.lexemes ++ [Lexeme.closeParen]
  | binary o left right => left.lexemes ++ [Lexeme.op o] ++ right.lexemes
  | cond test yes no => test.lexemes ++ [Lexeme.question] ++ yes.lexemes ++ [Lexeme.colon] ++ no.lexemes

/-- How tightly an expression holds together. -/
def level : Expr → Nat
  | cond _ _ _ => 0
  | binary o _ _ => o.level
  | neg _ | toByte _ => 6
  | _ => 7

def isNeg : Expr → Bool
  | neg _ => true
  | _ => false

/-- The names in an expression are names, and its parentheses show how it was built. -/
def legible : Expr → Bool
  | lit _ => true
  | var x => isName x
  | cell index => index.legible
  | call f argument => isName f && argument.legible
  | toByte e => 6 ≤ e.level && e.legible
  | neg e => 6 ≤ e.level && !e.isNeg && e.legible
  | paren e => e.legible
  | binary o left right => o.level ≤ left.level && o.level < right.level && left.legible && right.legible
  | cond test yes no => 0 < test.level && test.legible && yes.legible && no.legible

end Expr

theorem isOperatorChar_of_isWordChar {c : Char} (h : isWordChar c = true) : isOperatorChar c = false := by
  cases hc : isOperatorChar c with
  | false => rfl
  | true =>
    have operators : ['+', '-', '*', '/', '%', '<', '>', '=', '!', '&', '|', '^', '~', '?', ':', '.'].all
        (fun c => !isWordChar c) = true := by decide
    have other := List.all_eq_true.1 operators c (List.contains_iff_mem.1 hc)
    rw [h] at other
    cases other

/-- The level of an operator is below that of a sign. -/
theorem level_le (o : Op) : o.level ≤ 5 := by
  cases o <;> decide

/-- What can follow a sign does not start with an operator. -/
theorem head_operand {e : Expr} (legible : e.legible = true) (level : 6 ≤ e.level) (positive : e.isNeg = false) :
    ∃ c, e.text.toList.head? = some c ∧ isOperatorChar c = false := by
  have word {x : String} (ne : x.toList ≠ []) (h : ∀ c ∈ x.toList, isWordChar c = true) :
      ∃ c, x.toList.head? = some c ∧ isOperatorChar c = false := by
    obtain ⟨c, cs, hx⟩ := List.exists_cons_of_ne_nil ne
    rw [hx] at h ⊢
    exact ⟨c, rfl, isOperatorChar_of_isWordChar (h c (by simp))⟩
  have front {x y : String} (h : ∃ c, x.toList.head? = some c ∧ isOperatorChar c = false) :
      ∃ c, (x ++ y).toList.head? = some c ∧ isOperatorChar c = false := by
    obtain ⟨c, hc, other⟩ := h
    exact ⟨c, by rw [String.toList_append, List.head?_append, hc, Option.some_or], other⟩
  cases e with
  | lit n =>
    have digits : (Expr.lit n).text.toList = Nat.toDigits 10 n := Nat.toList_repr
    refine word (by rw [digits]; exact Nat.toDigits_ne_nil) fun c hc => ?_
    rw [digits] at hc
    exact isWordChar_of_isDigit (Nat.isDigit_of_mem_toDigits (by decide) (by decide) hc)
  | var x => exact word (ne_of_isName legible) (all_word_of_isName legible)
  | cell index => exact front (front ⟨'t', rfl, rfl⟩)
  | call f argument =>
    rw [Expr.legible, Bool.and_eq_true] at legible
    exact front (front (front (word (ne_of_isName legible.1) (all_word_of_isName legible.1))))
  | toByte e => exact front (front (front ⟨'(', rfl, rfl⟩))
  | neg e => cases positive
  | paren e => exact front (front ⟨'(', rfl, rfl⟩)
  | binary o left right =>
    have : o.level ≤ 5 := level_le o
    simp only [Expr.level] at level
    omega
  | cond test yes no =>
    simp only [Expr.level] at level
    omega

/-- The lexemes of the text of an expression are those of the expression. -/
theorem spells_expr {e : Expr} (h : e.legible = true) : Spells e.text e.lexemes := by
  induction e with
  | lit n => exact spells_number n
  | var x => exact spells_name h
  | cell index ih => exact ((ih h).behind .index).before .closeBracket
  | call f argument ih =>
    rw [Expr.legible, Bool.and_eq_true] at h
    exact ((spells_name h.1).between .openParen (ih h.2)).before .closeParen
  | toByte e ih =>
    rw [Expr.legible, Bool.and_eq_true] at h
    exact (ih h.2).behind .cast
  | neg e ih =>
    simp only [Expr.legible, Bool.and_eq_true, Bool.not_eq_true', decide_eq_true_eq] at h
    have sign : Spells "-" [.op .sub] := by decide_cbv
    refine sign.append ?_ (ih h.2)
    intro x hx y hy
    obtain rfl : '-' = x := Option.some.inj hx
    obtain ⟨z, hz, other⟩ := head_operand h.2 h.1.1 h.1.2
    obtain rfl : z = y := Option.some.inj (hz.symm.trans hy)
    rw [sticky, other, Bool.and_false]
    rfl
  | paren e ih => exact ((ih h).behind .openParen).before .closeParen
  | binary o left right ihl ihr =>
    simp only [Expr.legible, Bool.and_eq_true] at h
    have whole := (ihl h.1.2).between (.op o) (ihr h.2)
    have e : (Expr.binary o left right).text = left.text ++ (" " ++ o.text ++ " ") ++ right.text := by
      simp only [Expr.text, String.append_assoc]
    rw [e]
    exact whole
  | cond test yes no iht ihy ihn =>
    simp only [Expr.legible, Bool.and_eq_true] at h
    exact ((iht h.1.1.2).between .question (ihy h.1.2)).between .colon (ihn h.2)

/-! ### Statements -/

/-- The lexemes of items with commas between them. -/
def withCommas (items : List (List Lexeme)) : List Lexeme := [Lexeme.comma].intercalate items

theorem spells_commas {α : Type} {text : α → String} {lexemes : α → List Lexeme} {xs : List α}
    (h : ∀ x ∈ xs, Spells (text x) (lexemes x)) :
    Spells (commaSeparated (xs.map text)) (withCommas (xs.map lexemes)) := by
  induction xs with
  | nil => rfl
  | cons x xs ih =>
    cases xs with
    | nil =>
      rw [List.map_singleton, List.map_singleton, commaSeparated, String.intercalate_singleton, withCommas,
        List.intercalate_singleton]
      exact h x (by simp)
    | cons y xs =>
      have later := ih fun z hz => h z (List.mem_cons_of_mem x hz)
      have whole := (h x (by simp)).between .comma later
      simp only [List.map_cons, commaSeparated, withCommas, String.intercalate_cons_cons,
        List.intercalate_cons_cons] at whole ⊢
      exact whole

def Place.lexemes : Place → List Lexeme
  | var x => [.name x]
  | cell index => (Expr.cell index).lexemes

def Place.legible : Place → Bool
  | var x => isName x
  | cell index => index.legible

mutual

def Stmt.lexemes : Stmt → List Lexeme
  | .declare t inits =>
    [Lexeme.type t] ++ withCommas (inits.map fun init => [Lexeme.name init.1] ++ [Lexeme.becomes] ++ init.2.lexemes)
      ++ [Lexeme.semicolon]
  | .assign place value => place.lexemes ++ [Lexeme.becomes] ++ value.lexemes ++ [Lexeme.semicolon]
  | .addAssign place value => place.lexemes ++ [Lexeme.increase] ++ value.lexemes ++ [Lexeme.semicolon]
  | .call f arguments =>
    [Lexeme.name f] ++ [Lexeme.openParen] ++ withCommas (arguments.map Expr.lexemes)
      ++ [Lexeme.closeParen, .semicolon]
  | .putchar byte => [Lexeme.putchar, .openParen] ++ byte.lexemes ++ [Lexeme.closeParen, .semicolon]
  | .flush => [.fflush, .openParen, .stdout, .closeParen, .semicolon]
  | .getchar x =>
    [Lexeme.type .int] ++ [Lexeme.name x] ++ [Lexeme.becomes, .getchar, .openParen, .closeParen, .semicolon]
  | .discard x => [Lexeme.openParen, .type .void, .closeParen] ++ [Lexeme.name x] ++ [Lexeme.semicolon]
  | .ret value => [Lexeme.returnWord] ++ value.lexemes ++ [Lexeme.semicolon]
  | .ifThen test body => [Lexeme.ifWord, .openParen] ++ test.lexemes ++ [Lexeme.closeParen] ++ body.lexemes
  | .whileDo test body => [Lexeme.whileWord, .openParen] ++ test.lexemes ++ [Lexeme.closeParen] ++ body.lexemes
  | .countDown x body =>
    [Lexeme.whileWord, .openParen] ++ [Lexeme.name x] ++ [Lexeme.decrease, .closeParen] ++ body.lexemes
  | .block body => [Lexeme.openBrace] ++ lexemesOfAll body ++ [Lexeme.closeBrace]

def lexemesOfAll : List Stmt → List Lexeme
  | [] => []
  | s :: rest => s.lexemes ++ lexemesOfAll rest

end

mutual

/-- The expressions and names of a statement are legible, and nothing is declared outside a block. -/
def Stmt.legible : Stmt → Bool
  | .declare _ inits => !inits.isEmpty && inits.all fun init => isName init.1 && init.2.legible
  | .assign place value | .addAssign place value => place.legible && value.legible
  | .call f arguments => isName f && !arguments.isEmpty && arguments.all Expr.legible
  | .putchar e | .ret e => e.legible
  | .flush => true
  | .getchar x | .discard x => isName x
  | .ifThen test body | .whileDo test body => test.legible && !body.isDeclaration && body.legible
  | .countDown x body => isName x && !body.isDeclaration && body.legible
  | .block body => legibleAll body

def legibleAll : List Stmt → Bool
  | [] => true
  | s :: rest => s.legible && legibleAll rest

end

theorem spells_place {place : Place} (h : place.legible = true) : Spells place.text place.lexemes := by
  cases place with
  | var x => exact spells_name h
  | cell index => exact spells_expr (e := .cell index) h

theorem spells_type (t : Ty) : Spells t.text [.type t] := by
  cases t <;> decide +kernel

theorem spells_init {init : String × Expr} (h : (isName init.1 && init.2.legible) = true) :
    Spells (init.1 ++ " = " ++ init.2.text) ([Lexeme.name init.1] ++ [Lexeme.becomes] ++ init.2.lexemes) := by
  rw [Bool.and_eq_true] at h
  exact (spells_name h.1).between .becomes (spells_expr h.2)

theorem spells_countDown {x : String} (h : isName x = true) :
    Spells ("while (" ++ x ++ "--) ")
      ([Lexeme.whileWord, .openParen] ++ [Lexeme.name x] ++ [Lexeme.decrease, .closeParen]) := by
  have counted : Spells (x ++ "--) ") ([Lexeme.name x] ++ [Lexeme.decrease, .closeParen]) := by
    refine (spells_name h).append ?_ Phrase.decrease.spells
    intro y hy z hz
    obtain rfl : '-' = z := Option.some.inj hz
    rw [sticky, isOperatorChar_of_isWordChar (all_word_of_isName h y (List.mem_of_mem_getLast? hy)), Bool.false_and,
      Bool.or_false]
    exact Bool.and_false _
  rw [String.append_assoc, List.append_assoc]
  exact counted.behind .loop

/-- A statement that contains no others. -/
def Stmt.isSimple : Stmt → Bool
  | ifThen _ _ | whileDo _ _ | countDown _ _ | block _ => false
  | _ => true

theorem lines_of_isSimple {s : Stmt} (simple : s.isSimple = true) (depth : Nat) :
    s.lines depth = [⟨depth, s.text⟩] := by
  cases s with
  | ifThen _ _ | whileDo _ _ | countDown _ _ | block _ => cases simple
  | _ => rw [Stmt.lines] <;> nofun

theorem spells_simple {s : Stmt} (h : s.legible = true) (simple : s.isSimple = true) : Spells s.text s.lexemes := by
  cases s with
  | declare t inits =>
    rw [Stmt.legible, Bool.and_eq_true, List.all_eq_true] at h
    have items : Spells (commaSeparated (inits.map fun init => init.1 ++ " = " ++ init.2.text))
        (withCommas (inits.map fun init => [Lexeme.name init.1] ++ [Lexeme.becomes] ++ init.2.lexemes)) :=
      spells_commas fun init hi => spells_init (h.2 init hi)
    exact ((spells_type t).between .blank items).before .semicolon
  | assign place value =>
    rw [Stmt.legible, Bool.and_eq_true] at h
    exact ((spells_place h.1).between .becomes (spells_expr h.2)).before .semicolon
  | addAssign place value =>
    rw [Stmt.legible, Bool.and_eq_true] at h
    exact ((spells_place h.1).between .increase (spells_expr h.2)).before .semicolon
  | call f arguments =>
    rw [Stmt.legible, Bool.and_eq_true, Bool.and_eq_true, List.all_eq_true] at h
    have items : Spells (commaSeparated (arguments.map Expr.text)) (withCommas (arguments.map Expr.lexemes)) :=
      spells_commas fun e he => spells_expr (h.2 e he)
    exact ((spells_name h.1.1).between .openParen items).before .closeCall
  | putchar byte => exact ((spells_expr h).behind .putchar).before .closeCall
  | flush => exact Phrase.flush.spells
  | getchar x => exact ((spells_name h).behind .int).before .received
  | discard x => exact ((spells_name h).behind .discard).before .semicolon
  | ret value => exact ((spells_expr h).behind .ret).before .semicolon
  | ifThen _ _ | whileDo _ _ | countDown _ _ | block _ => cases simple

/-! ### Lines -/

/-- Lines have these lexemes, each line some of its own. -/
inductive LinesSpell : List Line → List Lexeme → Prop
  | nil : LinesSpell [] []
  | cons {l : Line} {rest : List Line} {la lb : List Lexeme} (first : Spells l.text la) (later : LinesSpell rest lb) :
      LinesSpell (l :: rest) (la ++ lb)

theorem LinesSpell.single {depth : Nat} {text : String} {ls : List Lexeme} (h : Spells text ls) :
    LinesSpell [⟨depth, text⟩] ls := by
  have whole : LinesSpell [⟨depth, text⟩] (ls ++ []) := .cons h .nil
  rwa [List.append_nil] at whole

theorem LinesSpell.append {a b : List Line} {la lb : List Lexeme} (ha : LinesSpell a la) (hb : LinesSpell b lb) :
    LinesSpell (a ++ b) (la ++ lb) := by
  induction ha with
  | nil => exact hb
  | cons first _ ih =>
    rw [List.append_assoc]
    exact .cons first ih

/-- A label goes in front of the first line. -/
theorem LinesSpell.label {text : String} {lines : List Line} {lt ls : List Lexeme} (ht : Spells text lt)
    (loose : LooseEnd text) (h : LinesSpell lines ls) (ne : lines ≠ []) :
    LinesSpell (Line.label text lines) (lt ++ ls) := by
  cases h with
  | nil => exact absurd rfl ne
  | cons first later =>
    rw [← List.append_assoc]
    exact .cons (ht.append_of_looseEnd loose first) later

theorem label_ne_nil {text : String} {lines : List Line} (ne : lines ≠ []) : Line.label text lines ≠ [] := by
  cases lines with
  | nil => exact absurd rfl ne
  | cons l rest => exact List.cons_ne_nil _ _

theorem lines_ne_nil (depth : Nat) : (s : Stmt) → s.lines depth ≠ []
  | .ifThen test body => label_ne_nil (lines_ne_nil depth body)
  | .whileDo test body => label_ne_nil (lines_ne_nil depth body)
  | .countDown x body => label_ne_nil (lines_ne_nil depth body)
  | .block body => by
    rw [Stmt.lines]
    exact List.cons_ne_nil _ _
  | .declare _ _ | .assign _ _ | .addAssign _ _ | .call _ _ | .putchar _ | .flush | .getchar _ | .discard _
  | .ret _ =>
    List.cons_ne_nil _ _

mutual

/-- The lexemes of the lines of a statement are those of the statement. -/
theorem linesSpell_stmt (depth : Nat) : (s : Stmt) → s.legible = true → LinesSpell (s.lines depth) s.lexemes
  | .ifThen test body, h => by
    simp only [Stmt.legible, Bool.and_eq_true] at h
    have label := ((spells_expr h.1.1).behind .test).before .closeLabel
    rw [Stmt.lines, Stmt.lexemes]
    exact .label label (looseEnd_append Separator.closeLabel.loose.2) (linesSpell_stmt depth body h.2)
      (lines_ne_nil depth body)
  | .whileDo test body, h => by
    simp only [Stmt.legible, Bool.and_eq_true] at h
    have label := ((spells_expr h.1.1).behind .loop).before .closeLabel
    rw [Stmt.lines, Stmt.lexemes]
    exact .label label (looseEnd_append Separator.closeLabel.loose.2) (linesSpell_stmt depth body h.2)
      (lines_ne_nil depth body)
  | .countDown x body, h => by
    simp only [Stmt.legible, Bool.and_eq_true] at h
    rw [Stmt.lines, Stmt.lexemes]
    exact .label (spells_countDown h.1.1) (looseEnd_append Phrase.decrease.looseEnd) (linesSpell_stmt depth body h.2)
      (lines_ne_nil depth body)
  | .block body, h => by
    rw [Stmt.legible] at h
    rw [Stmt.lines, Stmt.lexemes, List.append_assoc]
    exact .cons Phrase.openBrace.spells
      ((linesSpell_all (depth + 1) body h).append (.single Phrase.closeBrace.spells))
  | .declare _ _, h | .assign _ _, h | .addAssign _ _, h | .call _ _, h | .putchar _, h | .flush, h | .getchar _, h
  | .discard _, h | .ret _, h => by
    rw [lines_of_isSimple rfl]
    exact .single (spells_simple h rfl)

theorem linesSpell_all (depth : Nat) :
    (ss : List Stmt) → legibleAll ss = true → LinesSpell (linesOfAll depth ss) (lexemesOfAll ss)
  | [], _ => by
    rw [linesOfAll, lexemesOfAll]
    exact .nil
  | s :: rest, h => by
    rw [legibleAll, Bool.and_eq_true] at h
    rw [linesOfAll, lexemesOfAll]
    exact (linesSpell_stmt depth s h.1).append (linesSpell_all depth rest h.2)

end

theorem spells_indentation (depth : Nat) : Spells (Line.indentation depth) [] := by
  have blanks (n : Nat) : lex? (List.replicate n ' ') = some [] := by
    induction n with
    | zero => rfl
    | succ n ih =>
      have blank : lex? [' '] = some [] := rfl
      have apart : Apart [' '] (List.replicate n ' ') := by
        intro x hx y _
        obtain rfl : ' ' = x := Option.some.inj hx
        exact sticky_of_loose (.inl rfl)
      exact lex?_append apart blank ih
  rw [Spells, Line.indentation, String.toList_ofList]
  exact blanks (4 * depth)

theorem Spells.indented {text : String} {ls : List Lexeme} (h : Spells text ls) (depth : Nat) :
    Spells (Line.indentation depth ++ text) ls := by
  refine Spells.append (fun c hc _ _ => sticky_of_loose (.inl ?_)) (spells_indentation depth) h
  rw [Line.indentation, String.toList_ofList] at hc
  rw [List.eq_of_mem_replicate (List.mem_of_mem_getLast? hc)]
  rfl

theorem LinesSpell.renderAll {lines : List Line} {ls : List Lexeme} (h : LinesSpell lines ls) :
    Spells (Line.renderAll lines) ls := by
  induction h with
  | nil => rfl
  | @cons l rest la lb first later ih =>
    have line : Spells l.render la := by
      have whole := (first.indented l.depth).before .newline
      rwa [Separator.lexemes, List.append_nil] at whole
    rw [Line.renderAll_cons]
    exact line.append_of_looseEnd (looseEnd_append Separator.newline.loose.2) ih

/-! ### Files -/

namespace Function

def lexemes (f : Function) : List Lexeme :=
  [Lexeme.static, .type f.result] ++ [Lexeme.name f.name] ++ [Lexeme.openParen]
    ++ withCommas (f.parameters.map fun parameter => [Lexeme.type parameter.1] ++ [Lexeme.name parameter.2])
    ++ [Lexeme.closeParen, .openBrace] ++ (lexemesOfAll f.body ++ [Lexeme.closeBrace])

def legible (f : Function) : Bool :=
  isName f.name && !f.parameters.isEmpty && f.parameters.all (fun parameter => isName parameter.2)
    && legibleAll f.body

end Function

theorem spells_header {f : Function} (h : f.legible = true) :
    Spells f.header ([Lexeme.static, .type f.result] ++ [Lexeme.name f.name] ++ [Lexeme.openParen]
      ++ withCommas (f.parameters.map fun parameter => [Lexeme.type parameter.1] ++ [Lexeme.name parameter.2])
      ++ [Lexeme.closeParen, .openBrace]) := by
  simp only [Function.legible, Bool.and_eq_true, List.all_eq_true] at h
  have front : Spells ("static " ++ f.result.text) ([Lexeme.static] ++ [Lexeme.type f.result]) :=
    (spells_type f.result).behind .static
  have parameters : Spells (commaSeparated (f.parameters.map fun parameter => parameter.1.text ++ " " ++ parameter.2))
      (withCommas (f.parameters.map fun parameter => [Lexeme.type parameter.1] ++ [Lexeme.name parameter.2])) := by
    refine spells_commas fun parameter hp => ?_
    exact (spells_type parameter.1).between .blank (spells_name (h.1.2 parameter hp))
  have named := front.between .blank (spells_name h.1.1.1)
  exact (named.between .openParen parameters).before .closeHeader

theorem linesSpell_function {f : Function} (h : f.legible = true) : LinesSpell f.lines f.lexemes := by
  have empty : Spells "" [] := rfl
  have body : legibleAll f.body = true := by
    simp only [Function.legible, Bool.and_eq_true] at h
    exact h.2
  have last : LinesSpell [⟨0, "\x7d"⟩, ⟨0, ""⟩] ([Lexeme.closeBrace] ++ []) :=
    .cons Phrase.closeBrace.spells (.single empty)
  exact .cons (spells_header h) ((linesSpell_all 1 f.body body).append last)

theorem linesSpell_functions {fs : List Function} (h : fs.all Function.legible = true) :
    LinesSpell (fs.flatMap Function.lines) (fs.flatMap Function.lexemes) := by
  induction fs with
  | nil => exact .nil
  | cons f fs ih =>
    rw [List.all_cons, Bool.and_eq_true] at h
    exact (linesSpell_function h.1).append (ih h.2)

theorem lexemesOfAll_append (ss ss' : List Stmt) :
    lexemesOfAll (ss ++ ss') = lexemesOfAll ss ++ lexemesOfAll ss' := by
  induction ss with
  | nil => rw [lexemesOfAll, List.nil_append, List.nil_append]
  | cons s ss ih => rw [List.cons_append, lexemesOfAll, lexemesOfAll, ih, List.append_assoc]

namespace File

/-- The whole of `main`. -/
def body (f : File) : List Stmt := f.main ++ [.flush, .ret (.lit 0)]

/-- The lexemes behind the directives. -/
def lexemes (f : File) : List Lexeme :=
  globals ++ (f.functions.flatMap Function.lexemes ++ (mainHeader ++ (lexemesOfAll f.body ++ [Lexeme.closeBrace])))

def legible (f : File) : Bool := f.functions.all Function.legible && legibleAll f.main

/-- The lines behind the directives. -/
def linesBelow (f : File) : List Line :=
  [⟨0, ""⟩, ⟨0, "static uint8_t tape[" ++ lengthName ++ "];"⟩, ⟨0, "static long " ++ cursorName ++ " = 0;"⟩, ⟨0, ""⟩]
    ++ (f.functions.flatMap Function.lines ++ ⟨0, "int main(void) \x7b"⟩ :: (linesOfAll 1 f.main ++ ending))

theorem render_eq (f : File) :
    f.render = "#define " ++ lengthName ++ " " ++ toString f.tapeLength
      ++ "\n#include <stdio.h>\n#include <stdint.h>\n" ++ Line.renderAll f.linesBelow := by
  have lines : f.lines = ⟨0, "#define " ++ lengthName ++ " " ++ toString f.tapeLength⟩ :: ⟨0, "#include <stdio.h>"⟩
      :: ⟨0, "#include <stdint.h>"⟩ :: f.linesBelow := by
    simp only [File.lines, preamble, linesBelow, List.cons_append, List.nil_append]
  have unindented (text : String) : Line.render ⟨0, text⟩ = text ++ "\n" := by
    have empty : Line.indentation 0 = "" := rfl
    rw [Line.render, empty, String.empty_append]
  have newline : ("\n#include <stdio.h>\n#include <stdint.h>\n" : String)
      = "\n" ++ ("#include <stdio.h>" ++ "\n" ++ ("#include <stdint.h>" ++ "\n")) := rfl
  rw [render, lines, Line.renderAll_cons, Line.renderAll_cons, Line.renderAll_cons, unindented, unindented,
    unindented,
    newline]
  simp only [String.append_assoc]

theorem spells_linesBelow {f : File} (h : f.legible = true) : Spells (Line.renderAll f.linesBelow) f.lexemes := by
  rw [legible, Bool.and_eq_true] at h
  have top : LinesSpell [⟨0, ""⟩, ⟨0, "static uint8_t tape[" ++ lengthName ++ "];"⟩,
      ⟨0, "static long " ++ cursorName ++ " = 0;"⟩, ⟨0, ""⟩] globals := by
    have lines := LinesSpell.cons (l := ⟨0, ""⟩) (rfl : Spells "" [])
      (.cons (l := ⟨0, _⟩) Phrase.array.spells (.cons (l := ⟨0, _⟩) Phrase.cursor.spells
        (.cons (l := ⟨0, ""⟩) (rfl : Spells "" []) .nil)))
    exact lines
  have last : LinesSpell ending (Stmt.flush.lexemes ++ (Stmt.ret (.lit 0)).lexemes ++ [Lexeme.closeBrace]) :=
    ((linesSpell_stmt 0 .flush rfl).append (linesSpell_stmt 1 (.ret (.lit 0)) rfl)).append
      (.single Phrase.closeBrace.spells)
  have main := (linesSpell_all 1 f.main h.2).append last
  have body : lexemesOfAll f.body ++ [Lexeme.closeBrace]
      = lexemesOfAll f.main ++ (Stmt.flush.lexemes ++ (Stmt.ret (.lit 0)).lexemes ++ [Lexeme.closeBrace]) := by
    simp only [File.body, lexemesOfAll_append, lexemesOfAll, List.append_nil, List.append_assoc]
  rw [lexemes, body]
  have whole : LinesSpell f.linesBelow _ :=
    top.append ((linesSpell_functions h.1).append (.cons Phrase.main.spells main))
  exact whole.renderAll

end File

end TapeLang.C
