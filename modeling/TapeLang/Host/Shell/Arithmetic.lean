import TapeLang.Host.Numeral
import TapeLang.Host.Shell.Word

/-!
# Arithmetic of the shell

Expressions over signed words of 64 bits, with the operators of C and their ranks.
-/

namespace TapeLang.Host.Shell.Arithmetic

/-- Why an expression has no value. -/
inductive Problem
  | illegalNumber (text : String)
  | malformed (text : String)
deriving DecidableEq, Repr

/-- What is said about an expression without a value. -/
def Problem.message (expression : String) : Problem → String
  | illegalNumber text => s!"Illegal number: {text}"
  | malformed text => s!"arithmetic expression: {text}: \"{expression}\""

/-- The values of names, and what was assigned so far, the latest first. -/
structure Scope where
  value : String → String
  assigned : List (String × Int)

/-- What remains of a number in a signed word of 64 bits. -/
def wrap (n : Int) : Int := n.bmod 18446744073709551616

def truth (b : Bool) : Int := if b then 1 else 0

def Scope.look (s : Scope) (name : String) : Except Problem Int :=
  match s.assigned.lookup name with
  | some n => .ok n
  | none =>
    match (s.value name).toList with
    | [] => .ok 0
    | cs =>
      match Numeral.signed? cs with
      | some (n, []) => .ok n
      | _ => .error (.illegalNumber (String.ofList cs))

def skipBlanks (cs : List Char) : List Char := cs.dropWhile fun c => c == ' ' || c == '\t' || c == '\n'

/-- Operators between two operands with their ranks; a longer one comes before its beginnings. -/
def operators : List (String × Nat) :=
  [("||", 1), ("&&", 2), ("==", 6), ("!=", 6), ("<=", 7), (">=", 7), ("<<", 8), (">>", 8), ("|", 3), ("^", 4),
    ("&", 5), ("<", 7), (">", 7), ("+", 9), ("-", 9), ("*", 10), ("/", 10), ("%", 10)]

def operator? (cs : List Char) : Option (String × Nat × List Char) :=
  operators.findSome? fun op =>
    if op.1.toList.isPrefixOf cs then some (op.1, op.2, cs.drop op.1.length) else none

/-- Two's complement, digit by digit. -/
def bitwise (f : Nat → Nat → Nat) (a b : Int) : Int :=
  let word (n : Int) : Nat := (n % 18446744073709551616).toNat
  wrap (f (word a) (word b))

def apply (op : String) (a b : Int) : Except Problem Int :=
  match op with
  | "||" => .ok (truth (a != 0 || b != 0))
  | "&&" => .ok (truth (a != 0 && b != 0))
  | "==" => .ok (truth (a == b))
  | "!=" => .ok (truth (a != b))
  | "<=" => .ok (truth (decide (a ≤ b)))
  | ">=" => .ok (truth (decide (b ≤ a)))
  | "<" => .ok (truth (decide (a < b)))
  | ">" => .ok (truth (decide (b < a)))
  | "<<" => .ok (bitwise (fun x n => x <<< (n % 64)) a b)
  | ">>" => .ok (a >>> (b % 64).toNat)
  | "|" => .ok (bitwise (· ||| ·) a b)
  | "^" => .ok (bitwise (· ^^^ ·) a b)
  | "&" => .ok (bitwise (· &&& ·) a b)
  | "+" => .ok (wrap (a + b))
  | "-" => .ok (wrap (a - b))
  | "*" => .ok (wrap (a * b))
  | "/" => if b = 0 then .error (.malformed "division by zero") else .ok (wrap (a.tdiv b))
  | _ => if b = 0 then .error (.malformed "division by zero") else .ok (wrap (a.tmod b))

/-- The operator in front of an equals sign that assigns, which may be none. -/
def assignment? (cs : List Char) : Option (String × List Char) :=
  match skipBlanks cs with
  | '=' :: '=' :: _ => none
  | '=' :: rest => some ("", rest)
  | c :: '=' :: rest => if "+-*/%&|^".toList.contains c then some (String.singleton c, rest) else none
  | _ => none

/-- What is read in front of a text. -/
inductive Part
  /-- One operand. -/
  | operand
  /-- Operands joined by operators of at least this rank. -/
  | joined (rank : Nat)
  /-- Goes on from a value. -/
  | more (rank : Nat) (value : Int)
  /-- All of it, with a choice between two values. -/
  | whole

/-- The value in front of a text, and the rest. -/
def value : Nat → Scope → Part → List Char → Except Problem (Int × Scope × List Char)
  | 0, _, _, _ => .error (.malformed "expecting primary")
  | fuel + 1, s, .operand, cs =>
    match skipBlanks cs with
    | [] => .error (.malformed "expecting primary")
    | '(' :: rest => do
      let (n, s, rest) ← value fuel s .whole rest
      match skipBlanks rest with
      | ')' :: rest => return (n, s, rest)
      | _ => throw (.malformed "expecting ')'")
    | '-' :: rest => do let (n, s, rest) ← value fuel s .operand rest; return (wrap (-n), s, rest)
    | '+' :: rest => value fuel s .operand rest
    | '!' :: rest => do let (n, s, rest) ← value fuel s .operand rest; return (truth (n == 0), s, rest)
    | '~' :: rest => do let (n, s, rest) ← value fuel s .operand rest; return (-n - 1, s, rest)
    | c :: rest =>
      if isNameStart c then do
        let name := String.ofList ((c :: rest).takeWhile isNameChar)
        let rest := (c :: rest).dropWhile isNameChar
        match assignment? rest with
        | some (op, rest) =>
          let (n, s, rest) ← value fuel s .whole rest
          let n ← if op.isEmpty then .ok n else apply op (← s.look name) n
          return (n, { s with assigned := (name, n) :: s.assigned }, rest)
        | none => return (← s.look name, s, rest)
      else
        match Numeral.unsigned? (c :: rest) with
        | some (n, rest) => .ok (wrap n, s, rest)
        | none => .error (.malformed "expecting primary")
  | fuel + 1, s, .joined rank, cs => do
    let (n, s, rest) ← value fuel s .operand cs
    value fuel s (.more rank n) rest
  | fuel + 1, s, .more rank n, cs => do
    match (operator? (skipBlanks cs)).filter fun op => rank ≤ op.2.1 with
    | some (op, r, rest) =>
      let (m, s, rest) ← value fuel s (.joined (r + 1)) rest
      value fuel s (.more rank (← apply op n m)) rest
    | none => return (n, s, cs)
  | fuel + 1, s, .whole, cs => do
    let (n, s, rest) ← value fuel s (.joined 1) cs
    match skipBlanks rest with
    | '?' :: rest =>
      let (a, s, rest) ← value fuel s .whole rest
      match skipBlanks rest with
      | ':' :: rest =>
        let (b, s, rest) ← value fuel s .whole rest
        return (if n != 0 then a else b, s, rest)
      | _ => throw (.malformed "expecting ':'")
    | _ => return (n, s, rest)

/-- The value of an expression, and what it assigns, the latest first. -/
def evaluate (lookup : String → String) (expression : String) : Except Problem (Int × List (String × Int)) := do
  let cs := expression.toList
  if (skipBlanks cs).isEmpty then return (0, [])
  let (n, s, rest) ← value (3 * cs.length + 3) ⟨lookup, []⟩ .whole cs
  if (skipBlanks rest).isEmpty then return (n, s.assigned) else throw (.malformed "expecting EOF")

end TapeLang.Host.Shell.Arithmetic
