import TapeLang.Host.Numeral

/-!
# Formatted output

What `echo` and `printf` print.  A backslash starts an escape; a percent sign in a format starts a directive, which
prints the next operand.
-/

namespace TapeLang.Host.Format

def utf8 (text : String) : List UInt8 := text.toUTF8.toList

/-- The byte that a letter after a backslash stands for. -/
def escapeLetter? : Char → Option UInt8
  | 'n' => some 10
  | 't' => some 9
  | 'r' => some 13
  | 'a' => some 7
  | 'b' => some 8
  | 'f' => some 12
  | 'v' => some 11
  | '\\' => some 92
  | _ => none

/-- What a backslash stands for, given what follows it, and the rest.  Up to three octal digits give a byte; before
anything else a backslash stands for itself. -/
def escape (cs : List Char) : UInt8 × List Char :=
  match cs with
  | [] => (92, [])
  | c :: rest =>
    match escapeLetter? c with
    | some byte => (byte, rest)
    | none =>
      match (cs.take 3).takeWhile Numeral.isOctalDigit with
      | [] => (92, cs)
      | octal => (UInt8.ofNat (Numeral.digits 8 0 octal).1, cs.drop octal.length)

/-- Reads the escapes in a text that is printed.  Here a zero may come before the octal digits, and `\c` ends all
output; the flag says whether it was met. -/
def unescape : Nat → List Char → List UInt8 × Bool
  | 0, _ | _, [] => ([], false)
  | _ + 1, '\\' :: 'c' :: _ => ([], true)
  | fuel + 1, '\\' :: rest =>
    let rest :=
      match rest with
      | '0' :: d :: more => if Numeral.isOctalDigit d then d :: more else rest
      | _ => rest
    let (byte, rest) := escape rest
    let (bytes, stopped) := unescape fuel rest
    (byte :: bytes, stopped)
  | fuel + 1, c :: rest =>
    let (bytes, stopped) := unescape fuel rest
    (utf8 (String.singleton c) ++ bytes, stopped)

def unescapeText (text : String) : List UInt8 × Bool := unescape (text.length + 1) text.toList

/-- Operands with a blank between them and a line end behind them, escapes read. -/
def echo (operands : List String) : List UInt8 :=
  let (newline, operands) : List UInt8 × List String :=
    match operands with
    | "-n" :: rest => ([], rest)
    | operands => ([10], operands)
  let (bytes, stopped) := unescapeText (" ".intercalate operands)
  if stopped then bytes else bytes ++ newline

/-- Operands as they are, unless `-e` asks for escapes. -/
def plainEcho (operands : List String) : List UInt8 :=
  let isFlag (o : String) : Bool :=
    o.length > 1 && o.startsWith "-" && (o.toList.drop 1).all fun c => "neE".toList.contains c
  let flags := (operands.takeWhile isFlag).flatMap String.toList
  let text := " ".intercalate (operands.dropWhile isFlag)
  let newline : List UInt8 := if flags.contains 'n' then [] else [10]
  if (flags.filter fun c => c == 'e' || c == 'E').getLast? == some 'e' then
    let (bytes, stopped) := unescapeText text
    if stopped then bytes else bytes ++ newline
  else utf8 text ++ newline

/-- How one operand is printed. -/
structure Directive where
  flags : List Char
  width : Nat
  precision : Option Nat
  conversion : Char

namespace Directive

def has (d : Directive) (flag : Char) : Bool := d.flags.contains flag

/-- Fills a text up to the width. -/
def pad (d : Directive) (bytes : List UInt8) : List UInt8 :=
  let blanks := List.replicate (d.width - bytes.length) 32
  if d.has '-' then bytes ++ blanks else blanks ++ bytes

/-- Fills up a number, between its sign and its digits if that is with zeros. -/
def padNumber (d : Directive) (sign : String) (digits : List Char) : List UInt8 :=
  let digits := List.replicate (d.precision.getD 1 - digits.length) '0' ++ digits
  let zeros := if d.has '0' && !d.has '-' && d.precision.isNone then d.width - (sign.length + digits.length) else 0
  d.pad (utf8 (sign ++ String.ofList (List.replicate zeros '0' ++ digits)))

def signed (d : Directive) (n : Int) : List UInt8 :=
  let sign := if n < 0 then "-" else if d.has '+' then "+" else if d.has ' ' then " " else ""
  d.padNumber sign (Numeral.render 10 false n.natAbs)

/-- A negative number is printed as the word of 64 bits that holds it. -/
def unsigned (d : Directive) (base : Nat) (upper : Bool) (n : Int) : List UInt8 :=
  let word := (n % 18446744073709551616).toNat
  let mark := if d.has '#' && word != 0 then (if base = 8 then "0" else if upper then "0X" else "0x") else ""
  d.padNumber mark (Numeral.render base upper word)

end Directive

/-- What is printed, the operands that are left and what was wrong with operands. -/
structure Progress where
  output : List UInt8
  operands : List String
  problems : List String
  /-- Did something end all output? -/
  stopped : Bool
  /-- Was the format itself wrong? -/
  malformed : Bool

namespace Progress

def emit (p : Progress) (bytes : List UInt8) : Progress := { p with output := p.output ++ bytes }

def next (p : Progress) : String × Progress := (p.operands.headD "", { p with operands := p.operands.drop 1 })

/-- The value of an operand; a quote in front of a character gives its number. -/
def number (p : Progress) (text : String) : Int × Progress :=
  let complain (about : String) : Progress := { p with problems := p.problems ++ [text ++ about] }
  match text.toList with
  | [] => (0, p)
  | '\'' :: c :: _ | '"' :: c :: _ => (c.toNat, p)
  | cs =>
    match Numeral.signed? (cs.dropWhile fun c => c == ' ' || c == '\t') with
    | some (n, []) => (n, p)
    | some (n, _) => (n, complain ": not completely converted")
    | none => (0, complain ": expected numeric value")

def perform (p : Progress) (d : Directive) : Progress :=
  let (text, p) := p.next
  match d.conversion with
  | 's' => p.emit (d.pad (match d.precision with | some n => (utf8 text).take n | none => utf8 text))
  | 'c' => p.emit (d.pad ((utf8 text).take 1))
  | 'b' =>
    let (bytes, stopped) := unescapeText text
    { p.emit (d.pad (match d.precision with | some n => bytes.take n | none => bytes)) with stopped := stopped }
  | 'd' | 'i' => let (n, p) := p.number text; p.emit (d.signed n)
  | 'u' => let (n, p) := p.number text; p.emit (d.unsigned 10 false n)
  | 'o' => let (n, p) := p.number text; p.emit (d.unsigned 8 false n)
  | 'x' => let (n, p) := p.number text; p.emit (d.unsigned 16 false n)
  | 'X' => let (n, p) := p.number text; p.emit (d.unsigned 16 true n)
  | c =>
    { p with problems := p.problems ++ [s!"%{c}: invalid directive"], stopped := true, malformed := true }

end Progress

/-- A width or a precision: digits, or a star for the next operand. -/
def measure (cs : List Char) (p : Progress) : Option Nat × List Char × Progress :=
  match cs with
  | '*' :: rest =>
    let (text, p) := p.next
    let (n, p) := p.number text
    (some n.toNat, rest, p)
  | _ =>
    match cs.takeWhile Char.isDigit with
    | [] => (none, cs, p)
    | ds => (some (Numeral.digits 10 0 ds).1, cs.drop ds.length, p)

/-- One pass over the format. -/
def pass : Nat → List Char → Progress → Progress
  | 0, _, p | _, [], p => p
  | fuel + 1, '%' :: '%' :: rest, p => pass fuel rest (p.emit [37])
  | fuel + 1, '%' :: rest, p =>
    let isFlag (c : Char) : Bool := "-+ 0#".toList.contains c
    let flags := rest.takeWhile isFlag
    let (width, rest, p) := measure (rest.drop flags.length) p
    let (precision, rest, p) :=
      match rest with
      | '.' :: rest =>
        let (n, rest, p) := measure rest p
        (some (n.getD 0), rest, p)
      | rest => (none, rest, p)
    match rest with
    | [] => { p with problems := p.problems ++ ["missing format character"], stopped := true, malformed := true }
    | c :: rest =>
      let p := p.perform ⟨flags, width.getD 0, precision, c⟩
      if p.stopped then p else pass fuel rest p
  | fuel + 1, '\\' :: rest, p =>
    let (byte, rest) := escape rest
    pass fuel rest (p.emit [byte])
  | fuel + 1, c :: rest, p => pass fuel rest (p.emit (utf8 (String.singleton c)))

/-- The format is used again as long as operands are left and it uses any. -/
def passes : Nat → List Char → Progress → Progress
  | 0, _, p => p
  | rounds + 1, format, p =>
    let after := pass (format.length + 1) format p
    if after.stopped || after.operands.isEmpty || after.operands.length == p.operands.length then after
    else passes rounds format after

def printf (format : String) (operands : List String) : Progress :=
  passes (operands.length + 1) format.toList ⟨[], operands, [], false, false⟩

end TapeLang.Host.Format
