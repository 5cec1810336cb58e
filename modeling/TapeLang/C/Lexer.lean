import TapeLang.C.Printer

/-!
# Lexemes

A text falls into pieces.  Letters, digits and underscores that stand together make one piece, and so do the
characters of operators; every other character is a piece by itself.  A blank or the end of a line is no lexeme,
every other piece has to be one.  Where two operators touch they make one piece, which is no lexeme unless the whole
of it is one: such texts are not read at all.
-/

namespace TapeLang.C

inductive Lexeme
  | name (text : String)
  | number (value : Nat)
  | type (t : Ty)
  | op (o : Op)
  | static
  | ifWord
  | whileWord
  | returnWord
  | tape
  | main
  | putchar
  | getchar
  | fflush
  | stdout
  | becomes
  | increase
  | decrease
  | question
  | colon
  | comma
  | semicolon
  | openParen
  | closeParen
  | openBracket
  | closeBracket
  | openBrace
  | closeBrace
deriving DecidableEq, Repr

namespace Lexeme

def text : Lexeme → String
  | name text => text
  | number value => toString value
  | type t => t.text
  | op o => o.text
  | static => "static"
  | ifWord => "if"
  | whileWord => "while"
  | returnWord => "return"
  | tape => "tape"
  | main => "main"
  | putchar => "putchar"
  | getchar => "getchar"
  | fflush => "fflush"
  | stdout => "stdout"
  | becomes => "="
  | increase => "+="
  | decrease => "--"
  | question => "?"
  | colon => ":"
  | comma => ","
  | semicolon => ";"
  | openParen => "("
  | closeParen => ")"
  | openBracket => "["
  | closeBracket => "]"
  | openBrace => "\x7b"
  | closeBrace => "\x7d"

/-- The lexemes that always have the same text. -/
def fixed : List Lexeme :=
  [type .uint8, type .int, type .unsigned, type .long, type .void,
    op .add, op .sub, op .mul, op .div, op .mod, op .lt, op .ge, op .ne, op .and,
    static, ifWord, whileWord, returnWord, tape, main, putchar, getchar, fflush, stdout,
    becomes, increase, decrease, question, colon, comma, semicolon,
    openParen, closeParen, openBracket, closeBracket, openBrace, closeBrace]

/-- The words that are no names in any C program. -/
def keywords : List String :=
  ["auto", "break", "case", "char", "const", "continue", "default", "do", "double", "else", "enum", "extern", "float",
    "for", "goto", "if", "inline", "int", "long", "register", "restrict", "return", "short", "signed", "sizeof",
    "static", "struct", "switch", "typedef", "union", "unsigned", "void", "volatile", "while", "_Bool", "_Complex",
    "_Imaginary"]

end Lexeme

def isWordChar (c : Char) : Bool := c.isAlphanum || c == '_'

def isOperatorChar (c : Char) : Bool :=
  ['+', '-', '*', '/', '%', '<', '>', '=', '!', '&', '|', '^', '~', '?', ':', '.'].contains c

def isBlankChar (c : Char) : Bool := c == ' ' || c == '\n'

/-- Two characters that belong to one piece if they touch. -/
def sticky (a b : Char) : Bool := (isWordChar a && isWordChar b) || (isOperatorChar a && isOperatorChar b)

/-- Puts a character in front of pieces. -/
def attach (c : Char) : List (List Char) → List (List Char)
  | (d :: piece) :: rest => if sticky c d then (c :: d :: piece) :: rest else [c] :: (d :: piece) :: rest
  | rest => [c] :: rest

def pieces (text : List Char) : List (List Char) := text.foldr attach []

/-- The value of a decimal number without zeros in front. -/
def decimal? (digits : List Char) : Option Nat :=
  let value := Nat.ofDigitChars 10 digits 0
  if Nat.toDigits 10 value = digits then some value else none

def Lexeme.name? (piece : List Char) : Option Lexeme :=
  if piece.all isWordChar ∧ String.ofList piece ∉ keywords then some (.name (String.ofList piece)) else none

def Lexeme.ofPiece? (piece : List Char) : Option Lexeme :=
  match fixed.find? fun l => l.text == String.ofList piece with
  | some l => some l
  | none =>
    match piece with
    | [] => none
    | c :: _ => if c.isDigit then (decimal? piece).map .number else name? piece

/-- The lexemes of a text. -/
def lex? (text : List Char) : Option (List Lexeme) :=
  ((pieces text).filter fun piece => !piece.all isBlankChar).mapM Lexeme.ofPiece?

end TapeLang.C
