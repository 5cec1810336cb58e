import TapeLang.C.Lexer

/-!
# Reading a file

`File.ofText?` reads a text as a file.  Operators bind as in C, from the question mark, which binds least, to the
signs and conversions, which bind most; operators of one level are read from the left.  Readers that call each other
take a number that bounds how deep they go.  Every two calls inside one another have passed a lexeme, so twice the
number of lexemes is enough.
-/

namespace TapeLang.C

/-- How tightly an operator binds. -/
def Op.level : Op → Nat
  | and => 1
  | ne => 2
  | lt | ge => 3
  | add | sub => 4
  | mul | div | mod => 5

mutual

/-- Reads an expression, as far as its operators bind at least as tightly as the level says. -/
def readExpr : Nat → Nat → List Lexeme → Option (Expr × List Lexeme)
  | 0, _, _ => none
  | depth + 1, level, ls => do
    let (e, rest) ← readOperand depth ls
    readMore depth level e rest

/-- Reads what an operator can stand next to. -/
def readOperand : Nat → List Lexeme → Option (Expr × List Lexeme)
  | 0, _ => none
  | depth + 1, ls =>
    match ls with
    | .op .sub :: rest => do
      let (e, rest) ← readOperand depth rest
      return (.neg e, rest)
    | .openParen :: .type .uint8 :: .closeParen :: rest => do
      let (e, rest) ← readOperand depth rest
      return (.toByte e, rest)
    | .openParen :: rest => do
      let (e, rest) ← readExpr depth 0 rest
      return (.paren e, ← [Lexeme.closeParen].isPrefixOf? rest)
    | .tape :: .openBracket :: rest => do
      let (e, rest) ← readExpr depth 0 rest
      return (.cell e, ← [Lexeme.closeBracket].isPrefixOf? rest)
    | .name f :: .openParen :: rest => do
      let (e, rest) ← readExpr depth 0 rest
      return (.call f e, ← [Lexeme.closeParen].isPrefixOf? rest)
    | .name x :: rest => some (.var x, rest)
    | .number n :: rest => some (.lit n, rest)
    | _ => none

/-- Reads on behind an expression, which becomes the left operand of what follows. -/
def readMore : Nat → Nat → Expr → List Lexeme → Option (Expr × List Lexeme)
  | 0, _, _, _ => none
  | depth + 1, level, left, ls =>
    match ls with
    | .question :: rest =>
      if level = 0 then do
        let (yes, rest) ← readExpr depth 0 rest
        let rest ← [Lexeme.colon].isPrefixOf? rest
        let (no, rest) ← readExpr depth 0 rest
        return (.cond left yes no, rest)
      else some (left, .question :: rest)
    | .op o :: rest =>
      if level ≤ o.level then do
        let (right, rest) ← readExpr depth (o.level + 1) rest
        readMore depth level (.binary o left right) rest
      else some (left, .op o :: rest)
    | ls => some (left, ls)

end

def Expr.read? (ls : List Lexeme) : Option (Expr × List Lexeme) := readExpr (2 * ls.length + 2) 0 ls

/-- Reads items with commas between them, and the lexeme behind the last one. -/
def readItems {α : Type} (item : List Lexeme → Option (α × List Lexeme)) (last : Lexeme) :
    Nat → List Lexeme → Option (List α × List Lexeme)
  | 0, _ => none
  | depth + 1, ls => do
    let (x, rest) ← item ls
    match rest with
    | .comma :: rest => do
      let (xs, rest) ← readItems item last depth rest
      return (x :: xs, rest)
    | l :: rest => if l = last then some ([x], rest) else none
    | [] => none

def readInit : List Lexeme → Option ((String × Expr) × List Lexeme)
  | .name x :: .becomes :: rest => do
    let (e, rest) ← Expr.read? rest
    return ((x, e), rest)
  | _ => none

def readParameter : List Lexeme → Option ((Ty × String) × List Lexeme)
  | .type t :: .name x :: rest => some ((t, x), rest)
  | _ => none

/-- Reads what is assigned to a place. -/
def readAssignment (place : Place) : List Lexeme → Option (Stmt × List Lexeme)
  | .becomes :: rest => do
    let (e, rest) ← Expr.read? rest
    return (.assign place e, ← [Lexeme.semicolon].isPrefixOf? rest)
  | .increase :: rest => do
    let (e, rest) ← Expr.read? rest
    return (.addAssign place e, ← [Lexeme.semicolon].isPrefixOf? rest)
  | _ => none

/-- Reads a statement that contains no others. -/
def readSimple : List Lexeme → Option (Stmt × List Lexeme)
  | .fflush :: .openParen :: .stdout :: .closeParen :: .semicolon :: rest => some (.flush, rest)
  | .putchar :: .openParen :: rest => do
    let (e, rest) ← Expr.read? rest
    return (.putchar e, ← [Lexeme.closeParen, .semicolon].isPrefixOf? rest)
  | .openParen :: .type .void :: .closeParen :: .name x :: .semicolon :: rest => some (.discard x, rest)
  | .returnWord :: rest => do
    let (e, rest) ← Expr.read? rest
    return (.ret e, ← [Lexeme.semicolon].isPrefixOf? rest)
  | .tape :: .openBracket :: rest => do
    let (index, rest) ← Expr.read? rest
    readAssignment (.cell index) (← [Lexeme.closeBracket].isPrefixOf? rest)
  | .name f :: .openParen :: rest => do
    let (arguments, rest) ← readItems Expr.read? .closeParen rest.length rest
    return (.call f arguments, ← [Lexeme.semicolon].isPrefixOf? rest)
  | .name x :: rest => readAssignment (.var x) rest
  | .type .int :: .name x :: .becomes :: .getchar :: .openParen :: .closeParen :: .semicolon :: rest =>
    some (.getchar x, rest)
  | .type t :: rest => do
    let (inits, rest) ← readItems readInit .semicolon rest.length rest
    return (.declare t inits, rest)
  | _ => none

/-- A declaration can stand in a block, but not alone behind `if` or `while`. -/
def Stmt.isDeclaration : Stmt → Bool
  | declare _ _ | getchar _ => true
  | _ => false

mutual

def readStatement : Nat → List Lexeme → Option (Stmt × List Lexeme)
  | 0, _ => none
  | depth + 1, ls =>
    match ls with
    | .openBrace :: rest => do
      let (body, rest) ← readBlock depth rest
      return (.block body, rest)
    | .ifWord :: .openParen :: rest => do
      let (test, rest) ← Expr.read? rest
      let (body, rest) ← readBody depth (← [Lexeme.closeParen].isPrefixOf? rest)
      return (.ifThen test body, rest)
    | .whileWord :: .openParen :: rest => do
      let (test, rest) ← Expr.read? rest
      match rest with
      | .closeParen :: rest => do
        let (body, rest) ← readBody depth rest
        return (.whileDo test body, rest)
      | .decrease :: .closeParen :: rest => do
        let (body, rest) ← readBody depth rest
        match test with
        | .var x => return (.countDown x body, rest)
        | _ => none
      | _ => none
    | ls => readSimple ls

/-- Reads the statement behind `if` or `while`. -/
def readBody : Nat → List Lexeme → Option (Stmt × List Lexeme)
  | 0, _ => none
  | depth + 1, ls => do
    let (body, rest) ← readStatement depth ls
    if body.isDeclaration then none else return (body, rest)

/-- Reads the statements of a block and the brace behind them. -/
def readBlock : Nat → List Lexeme → Option (List Stmt × List Lexeme)
  | 0, _ => none
  | depth + 1, ls =>
    match ls with
    | .closeBrace :: rest => some ([], rest)
    | ls => do
      let (s, rest) ← readStatement depth ls
      let (more, rest) ← readBlock depth rest
      return (s :: more, rest)

end

def Stmt.readBlock? (ls : List Lexeme) : Option (List Stmt × List Lexeme) := readBlock (2 * ls.length + 2) ls

/-- Reads functions as far as there are any. -/
def readFunctions : Nat → List Lexeme → Option (List Function × List Lexeme)
  | 0, _ => none
  | depth + 1, ls =>
    match ls with
    | .static :: .type result :: .name f :: .openParen :: rest => do
      let (parameters, rest) ← readItems readParameter .closeParen rest.length rest
      let (body, rest) ← Stmt.readBlock? (← [Lexeme.openBrace].isPrefixOf? rest)
      let (more, rest) ← readFunctions depth rest
      return (⟨result, f, parameters, body⟩ :: more, rest)
    | ls => some ([], ls)

namespace File

/-- The two globals. -/
def globals : List Lexeme :=
  [.static, .type .uint8, .tape, .openBracket, .name lengthName, .closeBracket, .semicolon,
    .static, .type .long, .name cursorName, .becomes, .number 0, .semicolon]

def mainHeader : List Lexeme := [.type .int, .main, .openParen, .type .void, .closeParen, .openBrace]

/-- The statements of `main` without the flush and the return at the end. -/
def withoutEnding? (body : List Stmt) : Option (List Stmt) :=
  match body.reverse with
  | .ret (.lit 0) :: .flush :: before => some before.reverse
  | _ => none

/-- Reads what follows the directives. -/
def ofLexemes? (length : Nat) (ls : List Lexeme) : Option File := do
  let rest ← globals.isPrefixOf? ls
  let (functions, rest) ← readFunctions (rest.length + 1) rest
  let (body, rest) ← Stmt.readBlock? (← mainHeader.isPrefixOf? rest)
  if rest.isEmpty then return ⟨length, functions, ← withoutEnding? body⟩ else none

/-- Reads a whole text.  It starts with the directives, which are read line by line. -/
def ofText? (text : String) : Option File := do
  let rest ← ("#define " ++ lengthName ++ " ").toList.isPrefixOf? text.toList
  let length ← decimal? (rest.takeWhile Char.isDigit)
  let rest ← "\n#include <stdio.h>\n#include <stdint.h>\n".toList.isPrefixOf? (rest.dropWhile Char.isDigit)
  ofLexemes? length (← lex? rest)

end File

end TapeLang.C
