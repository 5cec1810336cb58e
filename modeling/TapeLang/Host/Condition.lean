import TapeLang.Host.Numeral
import TapeLang.Host.World

/-!
# Conditions

The expressions that `test` decides: about texts, numbers and files, joined by `-a`, `-o` and `!`.
-/

namespace TapeLang.Host.Condition

inductive Problem
  | unexpectedOperator (text : String)
  | argumentExpected (text : String)
  | illegalNumber (text : String)
  | closingParenthesis
deriving DecidableEq, Repr

def Problem.message : Problem → String
  | unexpectedOperator text => s!"{text}: unexpected operator"
  | argumentExpected text => s!"{text}: argument expected"
  | illegalNumber text => s!"Illegal number: {text}"
  | closingParenthesis => "closing paren expected"

def isUnary (op : String) : Bool :=
  ["-r", "-w", "-x", "-e", "-f", "-d", "-c", "-b", "-p", "-u", "-g", "-k", "-s", "-h", "-L", "-O", "-G", "-S", "-t",
    "-n", "-z"].contains op

def isBinary (op : String) : Bool :=
  ["=", "!=", "<", ">", "-eq", "-ne", "-gt", "-ge", "-lt", "-le", "-nt", "-ot", "-ef"].contains op

/-- Is something true of a file? -/
def ofFile (w : World) (op path : String) : Bool :=
  if op = "-h" ∨ op = "-L" then
    match (w.files.entry w.here path).toOption.bind Place.node with
    | some (.link _) => true
    | _ => false
  else
    match w.files.node? w.here path with
    | none => false
    | some (.file content executable) =>
      ["-e", "-f", "-r", "-w", "-O", "-G"].contains op || (op == "-s" && !content.isEmpty)
        || (op == "-x" && executable)
    | some (.program _) => ["-e", "-f", "-r", "-w", "-x", "-s", "-O", "-G"].contains op
    | some (.directory _ _) => ["-e", "-d", "-r", "-w", "-x", "-s", "-O", "-G"].contains op
    | some (.device (.stream _)) => ["-e", "-p", "-r", "-w"].contains op
    | some (.device _) => ["-e", "-c", "-r", "-w", "-O", "-G"].contains op
    | some (.link _) => false

def unary (w : World) (op x : String) : Bool :=
  if op = "-n" then !x.isEmpty else if op = "-z" then x.isEmpty else ofFile w op x

def number (text : String) : Except Problem Int :=
  match (Numeral.int? text).filter fun n => -9223372036854775808 ≤ n && n ≤ 9223372036854775807 with
  | some n => .ok n
  | none => .error (.illegalNumber text)

def binary (w : World) (x op y : String) : Except Problem Bool :=
  match op with
  | "=" => .ok (x == y)
  | "!=" => .ok (x != y)
  | "<" => .ok (decide (x < y))
  | ">" => .ok (decide (y < x))
  | "-ef" =>
    let place (path : String) : Option Path :=
      ((w.files.resolve w.here path).toOption.filter fun p => p.node.isSome).map Place.path
    .ok ((place x).isSome && place x == place y)
  | "-nt" | "-ot" => .ok false
  | _ => do
    let a ← number x
    let b ← number y
    return match op with
      | "-eq" => a == b
      | "-ne" => a != b
      | "-gt" => decide (b < a)
      | "-ge" => decide (b ≤ a)
      | "-lt" => decide (a < b)
      | _ => decide (a ≤ b)

/-- How tight the operators are that an expression may hold. -/
inductive Level
  | either
  | both
  | single

/-- The value of the expression in front, and the rest. -/
def value (w : World) : Nat → Level → List String → Except Problem (Bool × List String)
  | 0, _, rest => .ok (false, rest)
  | _ + 1, _, [] => .ok (false, [])
  | fuel + 1, .either, words => do
    let (a, rest) ← value w fuel .both words
    match rest with
    | "-o" :: rest => do
      let (b, rest) ← value w fuel .either rest
      return (a || b, rest)
    | rest => return (a, rest)
  | fuel + 1, .both, words => do
    let (a, rest) ← value w fuel .single words
    match rest with
    | "-a" :: rest => do
      let (b, rest) ← value w fuel .both rest
      return (a && b, rest)
    | rest => return (a, rest)
  | fuel + 1, .single, x :: rest => do
    match rest with
    | op :: y :: more =>
      if isBinary op then return (← binary w x op y, more)
    | _ => pure ()
    if x = "!" ∧ !rest.isEmpty then
      let (a, rest) ← value w fuel .single rest
      return (!a, rest)
    if x = "(" ∧ !rest.isEmpty then
      let (a, rest) ← value w fuel .either rest
      match rest with
      | ")" :: rest => return (a, rest)
      | _ => throw .closingParenthesis
    if isUnary x then
      match rest with
      | y :: more => return (unary w x y, more)
      | [] => return (true, [])
    match rest with
    | [op] => if isBinary op then throw (.argumentExpected op) else return (!x.isEmpty, rest)
    | rest => return (!x.isEmpty, rest)

/-- Decides a whole expression. -/
def decide? (w : World) (words : List String) : Except Problem Bool := do
  let (a, rest) ← value w (4 * words.length + 4) .either words
  -- The complaint is about the last word that was understood.
  if rest.isEmpty then return a
  else throw (.unexpectedOperator (words.getD (words.length - rest.length - 1) ""))

end TapeLang.Host.Condition
