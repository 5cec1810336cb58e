/-!
# A small part of C

Expressions, statements and files: as much of C as programs over a byte tape need.  Every file has one array, the
tape, and one global variable, the cursor `p`.  Parentheses are part of the tree, so a tree has one text.
-/

namespace TapeLang.C

inductive Ty
  | uint8
  | int
  | unsigned
  | long
  | void
deriving DecidableEq, Repr

inductive Op
  | add
  | sub
  | mul
  | div
  | mod
  | lt
  | ge
  | ne
  | and
deriving DecidableEq, Repr

inductive Expr
  /-- A decimal constant. -/
  | lit (value : Nat)
  | var (name : String)
  /-- The cell of the tape with this index. -/
  | cell (index : Expr)
  /-- The value of a function with one parameter. -/
  | call (function : String) (argument : Expr)
  /-- Conversion to `uint8_t`. -/
  | toByte (e : Expr)
  | neg (e : Expr)
  | paren (e : Expr)
  | binary (op : Op) (left right : Expr)
  | cond (test yes no : Expr)
deriving DecidableEq, Repr

/-- What can be assigned to. -/
inductive Place
  | var (name : String)
  | cell (index : Expr)
deriving DecidableEq, Repr

inductive Stmt
  /-- Declares variables of one type and gives them their values from left to right. -/
  | declare (type : Ty) (inits : List (String × Expr))
  | assign (place : Place) (value : Expr)
  | addAssign (place : Place) (value : Expr)
  | call (function : String) (arguments : List Expr)
  | putchar (byte : Expr)
  | flush
  /-- Declares an `int` and reads a byte into it. -/
  | getchar (name : String)
  /-- Evaluates a variable and ignores its value. -/
  | discard (name : String)
  | ret (value : Expr)
  | ifThen (test : Expr) (body : Stmt)
  | whileDo (test : Expr) (body : Stmt)
  /-- Counts a variable down: it loses one after every test, and the loop goes on while the test found it not
  zero. -/
  | countDown (name : String) (body : Stmt)
  | block (body : List Stmt)
deriving Repr

structure Function where
  result : Ty
  name : String
  parameters : List (Ty × String)
  body : List Stmt
deriving Repr

/-- A whole file.  After the statements of `main` the output is flushed and zero is returned. -/
structure File where
  tapeLength : Nat
  functions : List Function
  main : List Stmt
deriving Repr

/-- The name of the constant that stands for the length of the tape. -/
def lengthName : String := "TAPE_LEN"

/-- The name of the value that `getchar` gives at the end of the input. -/
def endName : String := "EOF"

/-- The name of the cursor. -/
def cursorName : String := "p"

end TapeLang.C
