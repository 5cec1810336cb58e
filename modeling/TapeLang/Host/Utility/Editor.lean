import TapeLang.Host.Utility.Text

/-!
# The line editor

Commands that are carried out on each line of a text.
-/

namespace TapeLang.Host.Utility

open CommandLine (OsError)

/-- Which lines an editing command is for. -/
inductive Address
  | every
  | line (n : Nat)
  | onward (n : Nat)
  | last
  | lines (first last : Nat)
  | having (pattern : List (List Regex))

/-- What an editing command does to a line. -/
inductive Edit
  | substitute (pattern : List (List Regex)) (new : List Char) (flags : List Char)
  | delete
  | print
  | quit

/-- Splits at a delimiter that is not behind a backslash. -/
def splitDelimited (d : Char) : List Char → List Char × Option (List Char)
  | [] => ([], none)
  | '\\' :: c :: rest =>
    let (part, more) := splitDelimited d rest
    (if c == d then c :: part else '\\' :: c :: part, more)
  | c :: rest =>
    if c == d then ([], some rest)
    else
      let (part, more) := splitDelimited d rest
      (c :: part, more)

def Address.read (extended : Bool) (cs : List Char) : Address × List Char :=
  match cs with
  | '$' :: rest => (.last, rest)
  | '/' :: rest =>
    let (pattern, rest) := splitDelimited '/' rest
    (.having (Regex.ofText extended (String.ofList pattern)), rest.getD [])
  | _ =>
    match cs.takeWhile Char.isDigit with
    | [] => (.every, cs)
    | ds =>
      let first := (Numeral.digits 10 0 ds).1
      match cs.drop ds.length with
      | ',' :: '$' :: rest => (.onward first, rest)
      | ',' :: rest =>
        let (final, rest) := Numeral.digits 10 0 rest
        (.lines first final, rest)
      | rest => (.line first, rest)

def Edit.read? (extended : Bool) : List Char → Option (Edit × List Char)
  | 's' :: d :: rest => do
    let (pattern, rest) := splitDelimited d rest
    let (new, rest) := splitDelimited d (← rest)
    let rest ← rest
    let flags := rest.takeWhile Char.isAlphanum
    return (.substitute (Regex.ofText extended (String.ofList pattern)) new flags, rest.drop flags.length)
  | 'd' :: rest => some (.delete, rest)
  | 'p' :: rest => some (.print, rest)
  | 'q' :: rest => some (.quit, rest)
  | _ => none

/-- Editing commands with semicolons or line ends between them. -/
def readEdits (extended : Bool) : Nat → List Char → Option (List (Address × Edit))
  | 0, _ => none
  | fuel + 1, cs =>
    match cs.dropWhile fun c => c == ' ' || c == ';' || c == '\n' with
    | [] => some []
    | cs => do
      let (address, cs) := Address.read extended cs
      let (edit, cs) ← Edit.read? extended (cs.dropWhile (· == ' '))
      return (address, edit) :: (← readEdits extended fuel cs)

/-- What a replacement stands for: `&` is the match and a digit behind a backslash a group. -/
def replacement (whole : List Char) (start stop : Nat) (gs : Regex.Groups) : List Char → List Char
  | [] => []
  | '&' :: rest => (whole.take stop).drop start ++ replacement whole start stop gs rest
  | '\\' :: c :: rest =>
    let here := if c == 'n' then ['\n'] else if c.isDigit then gs.text whole (c.toNat - '0'.toNat) else [c]
    here ++ replacement whole start stop gs rest
  | c :: rest => c :: replacement whole start stop gs rest

/-- Replaces the matches at and after a position. -/
def substitute (items : List (List Regex)) (new : List Char) (everywhere : Bool) (whole : List Char) :
    Nat → Nat → List Char
  | 0, at_ => whole.drop at_
  | fuel + 1, at_ =>
    match Regex.find? items whole at_ with
    | none => whole.drop at_
    | some (start, stop, gs) =>
      let done := (whole.take start).drop at_ ++ replacement whole start stop gs new
      let next := if stop == start then stop + 1 else stop
      let kept := if stop == start then (whole.take next).drop stop else []
      if everywhere && next ≤ whole.length then done ++ kept ++ substitute items new everywhere whole fuel next
      else done ++ whole.drop stop

/-- One line through all edits: what is printed at once, the line if it is still there, and whether to stop. -/
def editLine (number total : Nat) (edits : List (Address × Edit)) (line : List Char) :
    List (List Char) × Option (List Char) × Bool :=
  edits.foldl (fun (state : List (List Char) × Option (List Char) × Bool) e =>
    match state with
    | (printed, some line, false) =>
      let wanted :=
        match e.1 with
        | .every => true
        | .line n => n == number
        | .onward n => n ≤ number
        | .lines first last => number == first || (first ≤ number && number ≤ last)
        | .last => number == total
        | .having items => (Regex.find? items line 0).isSome
      if !wanted then state
      else
        match e.2 with
        | .substitute items new flags =>
          let after := substitute items new (flags.contains 'g') line (line.length + 2) 0
          let shown := flags.contains 'p' && (Regex.find? items line 0).isSome
          (if shown then printed ++ [after] else printed, some after, false)
        | .delete => (printed, none, false)
        | .print => (printed ++ [line], some line, false)
        | .quit => (printed, some line, true)
    | state => state) ([], some line, false)

def editAll (silent : Bool) (total : Nat) (edits : List (Address × Edit)) : Nat → List (List UInt8) → List UInt8
  | _, [] => []
  | number, raw :: rest =>
    let (printed, line, stopped) := editLine number total edits (World.text (bare raw)).toList
    let shown := printed ++ (if silent then [] else line.toList)
    let ending : List UInt8 := if raw.getLast? == some 10 then [10] else []
    let bytes := shown.flatMap fun l => World.bytes (String.ofList l) ++ ending
    if stopped then bytes else bytes ++ editAll silent total edits (number + 1) rest

/-- The scripts that come with `-e`, or the first operand. -/
def editScripts : List String → List String × List String
  | "-e" :: script :: rest =>
    let (scripts, others) := editScripts rest
    (script :: scripts, others)
  | argument :: rest =>
    let (scripts, others) := editScripts rest
    (scripts, argument :: others)
  | [] => ([], [])

def sed (arguments : List String) : Action := do
  let (scripts, others) := editScripts arguments
  withArguments "nErisu" others fun a => do
    let (script, files) : String × List String :=
      if scripts.isEmpty then (a.operands.headD "", a.operands.drop 1) else ("\n".intercalate scripts, a.operands)
    match readEdits (a.has 'E' || a.has 'r') (script.length + 1) script.toList with
    | none =>
      complain "-e expression #1, char 1: unknown command"
      return 1
    | some edits =>
      let edited (content : List UInt8) : List UInt8 :=
        let lines := linesOf content
        editAll (a.has 'n') lines.length edits 1 lines
      forEach (if files.isEmpty then ["-"] else files) fun operand => do
        match ← contentOf operand with
        | .ok content =>
          if a.has 'i' then
            let w ← get
            set ((w.writeFile operand (edited content)).toOption.getD w)
          else out (edited content)
          return 0
        | .error e =>
          complain s!"can't read {operand}: {e.text}"
          return 2

end TapeLang.Host.Utility
