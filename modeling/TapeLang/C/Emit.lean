import TapeLang.C.Syntax
import TapeLang.Instruction
import TapeLang.Tape

/-!
# Programs as C

`Program.toC` writes every instruction as C statements with the same effect.  Four functions do the work on the
tape: the cursor stops at the ends, cells off the tape read as zero and are not written.
-/

namespace TapeLang

namespace C

open TapeLang.C.Expr TapeLang.C.Stmt

/-- A number, with its sign in front. -/
def number : Int → Expr
  | .ofNat n => lit n
  | .negSucc n => neg (lit (n + 1))

/-- The cursor. -/
def cursor : Expr := var cursorName

/-- The cell under the cursor. -/
def current : Expr := cell cursor

def clearCurrent : Stmt := assign (.cell cursor) (lit 0)

def moveBy (amount : Expr) : Stmt := call "move_by" [amount]

def cellGet (offset : Int) : Expr := Expr.call "cell_get" (number offset)

def cellSet (offset : Int) (value : Expr) : Stmt := call "cell_set" [number offset, value]

def cellAdd (offset : Int) (delta : Expr) : Stmt := call "cell_add" [number offset, delta]

/-- The index `i` is on the tape. -/
def onTape : Expr := binary .and (binary .ge (var "i") (lit 0)) (binary .lt (var "i") (var lengthName))

def declareIndex : Stmt := declare .long [("i", binary .add cursor (var "offset"))]

def moveByFunction : Function where
  result := .void
  name := "move_by"
  parameters := [(.long, "delta")]
  body :=
    [addAssign (.var cursorName) (var "delta"),
      ifThen (binary .lt cursor (lit 0)) (assign (.var cursorName) (lit 0)),
      ifThen (binary .ge cursor (var lengthName))
        (assign (.var cursorName) (binary .sub (var lengthName) (lit 1)))]

def cellGetFunction : Function where
  result := .uint8
  name := "cell_get"
  parameters := [(.long, "offset")]
  body := [declareIndex, ret (cond (paren onTape) (cell (var "i")) (lit 0))]

def cellSetFunction : Function where
  result := .void
  name := "cell_set"
  parameters := [(.long, "offset"), (.uint8, "value")]
  body := [declareIndex, ifThen onTape (assign (.cell (var "i")) (var "value"))]

def cellAddFunction : Function where
  result := .void
  name := "cell_add"
  parameters := [(.long, "offset"), (.uint8, "delta")]
  body :=
    [declareIndex,
      ifThen onTape (assign (.cell (var "i")) (toByte (paren (binary .add (cell (var "i")) (var "delta")))))]

def helpers : List Function := [moveByFunction, cellGetFunction, cellSetFunction, cellAddFunction]

/-- What `main` starts with. -/
def opening : List Stmt := [declare .uint8 [("counter", lit 0)], discard "counter"]

def transferStmts (entries : List (Int8 × Int8)) : List Stmt :=
  assign (.var "counter") current
    :: entries.map (fun (offset, weight) =>
        cellAdd offset.toInt (toByte (paren (binary .mul (var "counter") (lit weight.toUInt8.toNat)))))
    ++ [clearCurrent]

def multiplyStmt : Stmt :=
  ifThen current (block
    [declare .uint8 [("a", current), ("b", cellGet 1), ("r", cellGet 2), ("t", cellGet 3)],
      declare .uint8 [("m", toByte (paren (binary .add (var "b") (var "t"))))],
      cellSet 1 (var "m"),
      cellSet 2 (toByte (paren (binary .add (binary .add (var "r") (var "b"))
        (binary .mul (paren (binary .sub (var "a") (lit 1))) (var "m"))))),
      cellSet 3 (lit 0),
      clearCurrent])

def exponentStmt : Stmt :=
  ifThen current (block
    [declare .uint8 [("e", current), ("base", cellGet 1), ("r", cellGet 2)],
      countDown "e" (assign (.var "r") (toByte (paren (binary .mul (var "r") (var "base"))))),
      cellSet 2 (var "r"),
      cellSet 3 (lit 0),
      cellSet 4 (lit 0),
      clearCurrent])

def divideStmt : Stmt :=
  ifThen current (block
    [declare .unsigned [("n", current), ("d", cond (cellGet 1) (cellGet 1) (lit 256))],
      cellSet 1 (toByte (paren (binary .sub (var "d") (binary .mod (var "n") (var "d"))))),
      cellSet 2 (toByte (paren (binary .mod (var "n") (var "d")))),
      cellSet 3 (toByte (paren (binary .div (var "n") (var "d")))),
      clearCurrent])

def ofClosedForm : ClosedForm → List Stmt
  | .clear => [clearCurrent]
  | .transferAdd target => [cellAdd target.toInt current, clearCurrent]
  | .transferSub target => [cellAdd target.toInt (toByte (neg current)), clearCurrent]
  | .multiply => [multiplyStmt]
  | .exponent => [exponentStmt]
  | .divide => [divideStmt]
  | .weighted entries => transferStmts entries

def readStmt : Stmt :=
  block [flush, getchar "c", ifThen (binary .ne (var "c") (var endName)) (assign (.cell cursor) (toByte (var "c")))]

mutual

def ofInstruction : Instruction → List Stmt
  | .move amount => [moveBy (number amount.toInt)]
  | .add delta offset =>
    if offset = 0 then [addAssign (.cell cursor) (lit delta.toUInt8.toNat)]
    else [cellAdd offset.toInt (lit delta.toUInt8.toNat)]
  | .print => [putchar current]
  | .read => [readStmt]
  | .seek step => [whileDo current (moveBy (number step.toInt))]
  | .closed form => ofClosedForm form
  | .loop body => [whileDo current (block (ofProgram body))]
  | .block body => [block (ofProgram body)]

def ofProgram : List Instruction → List Stmt
  | [] => []
  | i :: rest => ofInstruction i ++ ofProgram rest

end

end C

def Program.toC (p : Program) : C.File := ⟨tapeLength, C.helpers, C.opening ++ C.ofProgram p⟩

end TapeLang
