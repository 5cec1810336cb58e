import TapeLang.Host.Format
import TapeLang.Host.Numeral
import TapeLang.Host.Regex
import TapeLang.Host.Utility.Action

/-!
# Utilities on text

What passes bytes and lines on: all or some of them, counted, ordered or changed.
-/

namespace TapeLang.Host.Utility

open CommandLine (OsError)

def cat (a : Arguments) : Action :=
  forEach (if a.operands.isEmpty then ["-"] else a.operands) fun operand => do
    match ← contentOf operand with
    | .ok content =>
      if a.has 'n' then
        let numbered := (linesOf content).zipIdx.flatMap fun l =>
          let number := toString (l.2 + 1)
          List.replicate (6 - number.length) 32 ++ World.bytes (number ++ "\t") ++ l.1
        out numbered
      else out content
      return 0
    | .error e =>
      complain s!"{operand}: {e.text}"
      return 1

/-- How much of a file is wanted: so many lines or bytes, or all from one of them on. -/
structure Extent where
  bytes : Bool
  beyond : Bool
  count : Nat

namespace Extent

def standard : Extent := ⟨false, false, 10⟩

def ofText (bytes : Bool) (text : List Char) : Except String Extent :=
  let (beyond, digits) : Bool × List Char :=
    match text with
    | '+' :: digits => (true, digits)
    | digits => (false, digits)
  match Numeral.nat? (String.ofList digits) with
  | some n => .ok ⟨bytes, beyond, n⟩
  | none =>
    let unit := if bytes then "bytes" else "lines"
    .error s!"invalid number of {unit}: '{String.ofList text}'"

/-- The extent that arguments such as `-n 3`, `-n3` and `-3` give, and the operands. -/
def read (e : Extent) : List String → Except String (Extent × List String)
  | [] => .ok (e, [])
  | "--" :: rest => .ok (e, rest)
  | first :: rest => do
    match first.toList, rest with
    | ['-', 'n'], n :: rest => read (← ofText false n.toList) rest
    | ['-', 'c'], n :: rest => read (← ofText true n.toList) rest
    | '-' :: 'n' :: n, rest => read (← ofText false n) rest
    | '-' :: 'c' :: n, rest => read (← ofText true n) rest
    | '-' :: c :: n, rest =>
      if c.isDigit then read (← ofText false (c :: n)) rest else throw s!"invalid option -- '{c}'"
    | _, rest =>
      let (e, operands) ← read e rest
      return (e, first :: operands)

def ofList {α : Type} (e : Extent) (atStart : Bool) (xs : List α) : List α :=
  if e.beyond then xs.drop (e.count - 1)
  else if atStart then xs.take e.count
  else xs.drop (xs.length - e.count)

def ofContent (e : Extent) (atStart : Bool) (content : List UInt8) : List UInt8 :=
  if e.bytes then e.ofList atStart content else (e.ofList atStart (linesOf content)).flatten

end Extent

/-- The first or the last part of each operand.  Only where bytes are counted from the start is the rest of the input
left to others. -/
def extract (atStart : Bool) (arguments : List String) : Action := do
  match Extent.standard.read arguments with
  | .error problem => misused problem
  | .ok (e, []) =>
    let content ← allInput
    let taken := e.ofContent atStart content
    if e.bytes && atStart then
      modify fun w =>
        match w.channels.lookup 0 with
        | some c => w.leave c (content.drop taken.length)
        | none => w
    out taken
    return 0
  | .ok (e, operands) =>
    let many := operands.length > 1
    let first := operands.head?
    forEach operands fun operand => do
      match ← contentOf operand with
      | .ok content =>
        if many then say ((if first == some operand then "" else "\n") ++ s!"==> {operand} <==\n")
        out (e.ofContent atStart content)
        return 0
      | .error problem =>
        complain s!"cannot open '{operand}' for reading: {problem.text}"
        return 1

def isBlank (b : UInt8) : Bool := b == 32 || (9 ≤ b && b ≤ 13)

/-- The number of words in a text. -/
def wordCount (content : List UInt8) : Nat :=
  (content.foldl (fun (state : Nat × Bool) b =>
    if isBlank b then (state.1, false) else (if state.2 then state.1 else state.1 + 1, true)) (0, false)).1

/-- Counts lines, words and bytes. -/
def tally (a : Arguments) : Action := do
  let all := a.flags.isEmpty
  let counts (content : List UInt8) : List Nat :=
    (if all || a.has 'l' then [content.countP isBreak] else []) ++
      (if all || a.has 'w' then [wordCount content] else []) ++
      (if a.has 'm' then [(World.text content).length] else []) ++
      (if all || a.has 'c' then [content.length] else [])
  let show_ (width : Nat) (ns : List Nat) (name : String) : String :=
    let texts := ns.map fun n => let t := toString n; String.ofList (List.replicate (width - t.length) ' ') ++ t
    " ".intercalate texts ++ (if name.isEmpty then "" else " " ++ name) ++ "\n"
  let single (ns : List Nat) : Bool := ns.length == 1
  if a.operands.isEmpty then
    let ns := counts (← allInput)
    say (show_ (if single ns then 1 else 7) ns "")
    return 0
  else
    let w ← get
    let sizes := a.operands.map fun o => ((w.readFile o).toOption.map fun r => r.1.length).getD 0
    let width := if single (counts []) && a.operands.length == 1 then 1 else (toString (sizes.foldl Nat.add 0)).length
    let status ← forEach a.operands fun operand => do
      match ← contentOf operand with
      | .ok content =>
        say (show_ width (counts content) operand)
        return 0
      | .error e =>
        complain s!"{operand}: {e.text}"
        return 1
    if a.operands.length > 1 then
      let totals := a.operands.map fun o => ((w.readFile o).toOption.map fun r => counts r.1).getD (counts [])
      say (show_ width (totals.foldl (List.zipWith (· + ·)) ((counts []).map fun _ => 0)) "total")
    return status

def tee (a : Arguments) : Action := do
  let content ← allInput
  out content
  forEach a.operands fun path => do
    let w ← get
    match w.openToWrite path (a.has 'a') with
    | .ok (w, c) =>
      set ((w.send content c).toOption.getD w)
      return 0
    | .error e =>
      complain s!"{path}: {e.text}"
      return 1

/-- The numbers from one to another. -/
def sequenceOf (first step last : Int) : List Int :=
  if step = 0 then []
  else
    let length := if step > 0 then (last - first) / step else (first - last) / (-step)
    (List.range (length + 1).toNat).map fun (n : Nat) => first + step * (n : Int)

def seq (operands : List String) : Action :=
  needOperand "operand" operands do
    match operands.find? fun o => (Numeral.int? o).isNone with
    | some bad => misused s!"invalid floating point argument: '{bad}'"
    | none =>
      let ns :=
        match operands.filterMap Numeral.int? with
        | [last] => sequenceOf 1 1 last
        | [first, last] => sequenceOf first 1 last
        | [first, step, last] => sequenceOf first step last
        | _ => []
      say (String.join (ns.map fun n => toString n ++ "\n"))
      return 0

/-- The characters of a set for `tr`, ranges and classes written out. -/
def charactersOf (text : String) : List UInt8 :=
  ranges (Format.unescapeText text).1
where
  ranges : List UInt8 → List UInt8
    | a :: 45 :: b :: rest =>
      ((List.range (b.toNat + 1 - a.toNat)).map fun n => a + UInt8.ofNat n) ++ ranges rest
    | a :: rest => a :: ranges rest
    | [] => []

def classOf (text : String) : List UInt8 :=
  if text.startsWith "[:" && text.endsWith ":]" then
    let name := ((text.drop 2).dropEnd 2).toString
    ((List.range 256).filter fun n => n < 128 && Glob.inClass (Char.ofNat n) name).map UInt8.ofNat
  else charactersOf text

/-- Replaces, deletes or squeezes bytes. -/
def transliterate (a : Arguments) : Action := do
  let content ← allInput
  let given := a.operands.map classOf
  let first := given.headD []
  let chosen :=
    if a.has 'c' || a.has 'C' then (List.range 256).map UInt8.ofNat |>.filter (!first.contains ·) else first
  let squeeze (set : List UInt8) (bytes : List UInt8) : List UInt8 :=
    (bytes.foldl (fun acc b => if set.contains b && acc.head? == some b then acc else b :: acc) []).reverse
  let second := (given.drop 1).headD []
  let replaced (b : UInt8) : UInt8 :=
    match chosen.idxOf? b with
    | some n => if n < second.length then second.getD n b else second.getLast?.getD b
    | none => b
  let changed := if a.has 'd' then content.filter (!chosen.contains ·) else content.map replaced
  let result := if a.has 's' then squeeze (if second.isEmpty then chosen else second) changed else changed
  out result
  return 0

/-- The lines of all operands together. -/
def gather (operands : List String) : StateM World (Nat × List (List UInt8)) := do
  (if operands.isEmpty then ["-"] else operands).foldlM (fun (state : Nat × List (List UInt8)) operand => do
    match ← contentOf operand with
    | .ok content => return (state.1, state.2 ++ (linesOf content).map bare)
    | .error e =>
      complain s!"cannot read: {operand}: {e.text}"
      return (2, state.2)) (0, [])

def unlines (lines : List (List UInt8)) : List UInt8 := lines.flatMap fun l => l ++ [10]

def dropRepeats : List (List UInt8) → List (List UInt8)
  | a :: b :: rest => if a == b then dropRepeats (b :: rest) else a :: dropRepeats (b :: rest)
  | lines => lines

def numberIn (line : List UInt8) : Int :=
  ((Numeral.signed? ((World.text line).toList.dropWhile (· == ' '))).map Prod.fst).getD 0

def sort (a : Arguments) : Action := do
  let (status, lines) ← gather a.operands
  let ordered (x y : List UInt8) : Bool :=
    if a.has 'n' && numberIn x != numberIn y then decide (numberIn x ≤ numberIn y) else decide (¬ y < x)
  let sorted := lines.mergeSort ordered
  let sorted := if a.has 'r' then sorted.reverse else sorted
  out (unlines (if a.has 'u' then dropRepeats sorted else sorted))
  return status

/-- Does a list of numbers and ranges such as `1,3-5` have a number? -/
def selects (list : String) (n : Nat) : Bool :=
  (list.splitOn ",").any fun range =>
    match range.splitOn "-" with
    | [only] => Numeral.nat? only == some n
    | [first, last] => (Numeral.nat? first).getD 1 ≤ n && n ≤ (Numeral.nat? last).getD n
    | _ => false

/-- What `cut` is asked for: which parts, and what is between fields. -/
structure Cut where
  fields : Bool
  list : String
  delimiter : Char

def Cut.read (c : Cut) : List String → Cut × List String
  | [] => (c, [])
  | argument :: rest =>
    match argument.toList, rest with
    | ['-', 'd'], d :: rest => Cut.read { c with delimiter := (d.toList.head?).getD '\t' } rest
    | ['-', 'd', d], rest => Cut.read { c with delimiter := d } rest
    | ['-', 'f'], list :: rest => Cut.read { c with fields := true, list := list } rest
    | '-' :: 'f' :: list, rest => Cut.read { c with fields := true, list := String.ofList list } rest
    | ['-', 'c'], list :: rest | ['-', 'b'], list :: rest => Cut.read { c with fields := false, list := list } rest
    | '-' :: 'c' :: list, rest | '-' :: 'b' :: list, rest =>
      Cut.read { c with fields := false, list := String.ofList list } rest
    | _, rest =>
      let (c, operands) := Cut.read c rest
      (c, argument :: operands)

def Cut.line (c : Cut) (line : String) : String :=
  let select {α : Type} (xs : List α) : List α :=
    (xs.zipIdx.filter fun x => selects c.list (x.2 + 1)).map Prod.fst
  if c.fields then
    if line.toList.contains c.delimiter then
      let d := String.singleton c.delimiter
      d.intercalate (select (line.splitOn d))
    else line
  else String.ofList (select line.toList)

/-- Changes each line of the operands by itself. -/
def mapLines (f : String → String) (operands : List String) : Action := do
  let (status, lines) ← gather operands
  out (unlines (lines.map fun l => World.bytes (f (World.text l))))
  return status

def cut (arguments : List String) : Action :=
  let (c, operands) := Cut.read ⟨true, "", '\t'⟩ arguments
  if c.list.isEmpty then misused "you must specify a list of bytes, characters, or fields"
  else mapLines c.line operands

/-- The value of an operation on two texts, if it is one. -/
def operate? (x op y : String) : Option String :=
  let compare (f : Ordering → Bool) : Option String :=
    let order :=
      match Numeral.int? x, Numeral.int? y with
      | some a, some b => compareOfLessAndEq a b
      | _, _ => compareOfLessAndEq x y
    some (if f order then "1" else "0")
  let number (f : Int → Int → Int) : Option String := do
    let a ← Numeral.int? x
    let b ← Numeral.int? y
    if (op = "/" ∨ op = "%") ∧ b = 0 then none
    else some (toString (f a b))
  match op with
  | "+" => number (· + ·)
  | "-" => number (· - ·)
  | "*" => number (· * ·)
  | "/" => number Int.tdiv
  | "%" => number Int.tmod
  | "=" => compare (· == .eq)
  | "!=" => compare (· != .eq)
  | "<" => compare (· == .lt)
  | "<=" => compare (· != .gt)
  | ">" => compare (· == .gt)
  | ">=" => compare (· != .lt)
  | ":" =>
    match Regex.find? (Regex.ofText false ("^" ++ y)) x.toList 0 with
    | some (_, stop, gs) =>
      if gs.any fun g => g.1 == 1 then some (String.ofList (gs.text x.toList 1)) else some (toString stop)
    | none => some "0"
  | _ => none

/-- The value of an expression whose operations are done from left to right. -/
def fold : String → List String → Option String
  | x, [] => some x
  | x, op :: y :: rest => (operate? x op y).bind fun z => fold z rest
  | _, [_] => none

def expr (operands : List String) : Action :=
  needOperand "operand" operands do
    match fold (operands.headD "") (operands.drop 1) with
    | some value =>
      say (value ++ "\n")
      return if value.isEmpty || value == "0" then 1 else 0
    | none =>
      complain "syntax error"
      return 2

/-- Prints the lines in which something is found. -/
def grep (a : Arguments) : Action := do
  match a.operands with
  | [] =>
    complain "Usage: grep [OPTION]... PATTERNS [FILE]..."
    complain "Try 'grep --help' for more information."
    return 2
  | pattern :: files =>
    let lower (text : String) : String := if a.has 'i' then text.toLower else text
    let items := if a.has 'F' then Regex.ofFixed (lower pattern) else Regex.ofText (a.has 'E') (lower pattern)
    let hit (line : List UInt8) : Bool :=
      let cs := (lower (World.text line)).toList
      let found :=
        match Regex.find? items cs 0 with
        | some (start, stop, _) => !a.has 'x' || (start == 0 && stop == cs.length)
        | none => false
      found != a.has 'v'
    let sources := if files.isEmpty then ["-"] else files
    let many := sources.length > 1 && !a.has 'h'
    let (found, failed) ← sources.foldlM (fun (state : Bool × Bool) operand => do
      match ← contentOf operand with
      | .ok content =>
        let lines := ((linesOf content).map bare).zipIdx.filter fun l => hit l.1
        let tag := if many then operand ++ ":" else ""
        if a.has 'q' then pure ()
        else if a.has 'l' then (if lines.isEmpty then pure () else say (operand ++ "\n"))
        else if a.has 'c' then say s!"{tag}{lines.length}\n"
        else
          out (lines.flatMap fun l =>
            World.bytes (tag ++ if a.has 'n' then s!"{l.2 + 1}:" else "") ++ l.1 ++ [10])
        return (state.1 || !lines.isEmpty, state.2)
      | .error e =>
        if !a.has 's' then complain s!"{operand}: {e.text}"
        return (state.1, true)) (false, false)
    return if found && (!failed || a.has 'q') then 0 else if failed then 2 else 1

end TapeLang.Host.Utility
