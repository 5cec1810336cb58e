/-!
# Numbers in scripts

Decimal numbers with a sign, and numbers as C writes them, where `0x` and `0` in front choose the base.
-/

namespace TapeLang.Host.Numeral

def isOctalDigit (c : Char) : Bool := '0' ≤ c && c ≤ '7'

/-- The value of a digit, also of a letter that is one. -/
def digit? (c : Char) : Option Nat :=
  if c.isDigit then some (c.toNat - '0'.toNat)
  else if 'a' ≤ c && c ≤ 'f' then some (c.toNat - 'a'.toNat + 10)
  else if 'A' ≤ c && c ≤ 'F' then some (c.toNat - 'A'.toNat + 10)
  else none

/-- Reads digits of a base as far as they go: the value and the rest. -/
def digits (base acc : Nat) : List Char → Nat × List Char
  | [] => (acc, [])
  | c :: rest =>
    match (digit? c).filter (· < base) with
    | some d => digits base (base * acc + d) rest
    | none => (acc, c :: rest)

/-- Reads a number without a sign; there is none if there is no digit. -/
def unsigned? (cs : List Char) : Option (Nat × List Char) :=
  match cs with
  | '0' :: x :: c :: rest =>
    if (x == 'x' || x == 'X') && (digit? c).isSome then some (digits 16 0 (c :: rest)) else some (digits 8 0 cs)
  | '0' :: _ => some (digits 8 0 cs)
  | c :: _ => if c.isDigit then some (digits 10 0 cs) else none
  | [] => none

/-- Reads a number with or without a sign. -/
def signed? (cs : List Char) : Option (Int × List Char) :=
  match cs with
  | '-' :: rest => (unsigned? rest).map fun r => (-(r.1 : Int), r.2)
  | '+' :: rest => (unsigned? rest).map fun r => ((r.1 : Int), r.2)
  | _ => (unsigned? cs).map fun r => ((r.1 : Int), r.2)

/-- A text that is a decimal number without a sign. -/
def nat? (text : String) : Option Nat :=
  match text.toList with
  | [] => none
  | cs => if cs.all Char.isDigit then some (digits 10 0 cs).1 else none

/-- A text that is a decimal number, with blanks around it or not. -/
def int? (text : String) : Option Int :=
  let isBlank (c : Char) : Bool := c == ' ' || c == '\t' || c == '\n'
  let cs := ((text.toList.dropWhile isBlank).reverse.dropWhile isBlank).reverse
  match cs with
  | '-' :: rest => (nat? (String.ofList rest)).map fun n => -(n : Int)
  | '+' :: rest => (nat? (String.ofList rest)).map fun n => (n : Int)
  | _ => (nat? (String.ofList cs)).map fun n => (n : Int)

def digitChar (upper : Bool) (n : Nat) : Char :=
  if n < 10 then Char.ofNat ('0'.toNat + n)
  else Char.ofNat ((if upper then 'A'.toNat else 'a'.toNat) + (n - 10))

/-- The digits of a number in a base. -/
def render (base : Nat) (upper : Bool) (n : Nat) : List Char :=
  (Nat.toDigits base n).map fun c => digitChar upper ((digit? c).getD 0)

end TapeLang.Host.Numeral
