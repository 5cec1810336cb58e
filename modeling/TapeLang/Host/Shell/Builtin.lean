import TapeLang.Host.Shell.Expansion
import TapeLang.Host.Shell.Options
import TapeLang.Host.Utility

/-!
# Commands that the shell carries out itself

Those that change the shell, and the small utilities it has of its own.
-/

namespace TapeLang.Host.Shell

open CommandLine (Signal)

/-- Prints, or says that it cannot be done. -/
def State.say (s : State) (command : String) (bytes : List UInt8) : State :=
  match s.world.write 1 bytes with
  | .ok w => { s with world := w, status := 0 }
  | .error e => s.refuse 1 s!"{command}: I/O error: {e.text}"

def builtinSet (s : State) (operands : List String) : State :=
  match Settings.read false (operands.length + 1) ⟨s.options, false⟩ operands with
  | .ok (settings, arguments) =>
    { s with options := settings.options, arguments := arguments.getD s.arguments, status := 0 }
  | .error problem => s.abandon s!"set: {problem}"

/-- The number that an operand is, if it is one that can be counted to. -/
def count? (operand : String) : Option Nat :=
  ((Numeral.int? operand).filter fun n => 0 ≤ n && n ≤ 2147483647).map Int.toNat

/-- Goes on with the number that the first operand of a command is, or with one that stands for it. -/
def withCount (s : State) (command : String) (operands : List String) (otherwise : Nat) (goOn : Nat → State) :
    State :=
  match operands with
  | [] => goOn otherwise
  | operand :: _ => ((count? operand).map goOn).getD (s.abandon s!"{command}: Illegal number: {operand}")

def builtinExit (s : State) (operands : List String) : State :=
  withCount s "exit" operands (s.interrupted.getD s.status) s.exit

def builtinReturn (s : State) (operands : List String) : State :=
  withCount s "return" operands s.status fun n => { s with status := n, flow := .returning }

/-- Leaves loops, as many as there are. -/
def builtinLeave (s : State) (command : String) (again : Bool) (operands : List String) : State :=
  let operand := operands.headD "1"
  withCount s command operands 1 fun n =>
    if n = 0 then s.abandon s!"{command}: Illegal number: {operand}"
    else
      let levels := min s.loops n
      { s with status := 0, flow := if levels = 0 then .running else .leaving levels again }

def builtinShift (s : State) (operands : List String) : State :=
  withCount s "shift" operands 1 fun n =>
    if n > s.arguments.length then s.abandon "shift: can't shift that many"
    else { s with arguments := s.arguments.drop n, status := 0 }

/-- The name and the value that an operand such as `name=value` gives. -/
def nameAndValue (operand : String) : String × Option String :=
  match operand.toList.span (· != '=') with
  | (name, _ :: value) => (String.ofList name, some (String.ofList value))
  | (name, []) => (String.ofList name, none)

def builtinExport (s : State) (operands : List String) : State :=
  let s := operands.foldl (fun s o =>
    let (name, value) := nameAndValue o
    let s := value.elim s (s.bind name)
    { s with exported := if s.exported.contains name then s.exported else name :: s.exported }) s
  s.withStatus 0

def builtinReadonly (s : State) (operands : List String) : State :=
  let s := operands.foldl (fun s o =>
    let (name, value) := nameAndValue o
    let s := value.elim s (s.bind name)
    { s with frozen := name :: s.frozen }) s
  s.withStatus 0

def builtinLocal (s : State) (operands : List String) : State :=
  let s := operands.foldl (fun s o =>
    let (name, value) := nameAndValue o
    value.elim (s.localize name) ((s.localize name).bind name)) s
  s.withStatus 0

def builtinUnset (s : State) (operands : List String) : State :=
  let s := operands.foldl (fun s o =>
    if o = "-v" ∨ o = "-f" then s
    else if operands.contains "-f" then { s with functions := s.functions.filter fun f => f.1 != o }
    else s.unbind o) s
  s.withStatus 0

def builtinChange (s : State) (operands : List String) : State :=
  let target := operands.headD ((s.bindings.lookup "HOME").getD "")
  match s.world.files.resolve s.world.here target with
  | .ok ⟨path, some (.directory _ _)⟩ =>
    ({ s with world := { s.world with here := path } }.bind "PWD" (Utility.pathText path)).withStatus 0
  | _ => s.refuse 2 s!"cd: can't cd to {target}"

/-- The next line of the input, without its line end, whether it had one, and what comes after it.  A backslash at the
end of a line takes the next one in, unless `raw` holds. -/
def takeLine (raw : Bool) : List UInt8 → List (UInt8 × Bool) × Bool × List UInt8
  | [] => ([], false, [])
  | 92 :: b :: rest =>
    if raw then
      let (line, ended, after) := takeLine raw (b :: rest)
      ((92, false) :: line, ended, after)
    else
      let (line, ended, after) := takeLine raw rest
      (if b = 10 then line else (b, true) :: line, ended, after)
  | b :: rest =>
    if b = 10 then ([], true, rest)
    else
      let (line, ended, after) := takeLine raw rest
      ((b, false) :: line, ended, after)

/-- The text of bytes, with a mark on those that were behind a backslash. -/
def markedLine (line : List (UInt8 × Bool)) : Marked :=
  if line.any Prod.snd then line.map fun b => (Char.ofNat b.1.toNat, b.2)
  else Marked.ofText false (World.text (line.map Prod.fst))

/-- Gives each name a field of a line, and the last one all that is left. -/
def assignFields (separators : List Char) : State → List String → Marked → State
  | s, [], _ => s
  | s, [name], m =>
    let isBlank (c : Char × Bool) : Bool := !c.2 && separators.contains c.1 && (c.1 == ' ' || c.1 == '\t')
    s.bind name (Marked.text ((m.dropWhile isBlank).reverse.dropWhile isBlank).reverse)
  | s, name :: rest, m =>
    let isSeparator (c : Char × Bool) : Bool := !c.2 && separators.contains c.1
    let isBlank (c : Char × Bool) : Bool := isSeparator c && (c.1 == ' ' || c.1 == '\t')
    let m := m.dropWhile isBlank
    let field := m.takeWhile fun c => !isSeparator c
    let after := (m.drop field.length).dropWhile isBlank
    let after := match after with
      | c :: more => if isSeparator c then more else after
      | [] => []
    assignFields separators (s.bind name (Marked.text field)) rest after

def builtinRead (s : State) (operands : List String) : State :=
  let raw := operands.contains "-r"
  let names := operands.filter fun o => !o.startsWith "-"
  match s.world.channels.lookup 0 with
  | none => s.withStatus 1
  | some c =>
    let (line, ended, rest) := takeLine raw (s.world.waiting c)
    let s := { s with world := s.world.leave c rest }
    let s := assignFields s.separators s (if names.isEmpty then ["REPLY"] else names) (markedLine line)
    s.withStatus (if ended then 0 else 1)

/-- The signal that a text names or numbers. -/
def signal? (text : String) : Option Nat :=
  match Numeral.nat? text with
  | some n => if n ≤ Signal.last then some n else none
  | none => if text.toUpper = "EXIT" then some 0 else (Signal.ofName? text.toUpper).map Signal.number

def builtinTrap (s : State) (operands : List String) : State :=
  let without (s : State) (signal : Nat) : State := { s with traps := s.traps.filter fun t => t.1 != signal }
  let reset (s : State) (names : List String) : State :=
    (names.foldl (fun s n => (signal? n).elim s (without s)) s).withStatus 0
  match operands with
  | [] => s.withStatus 0
  | "--" :: rest | rest =>
    match rest with
    | [] => s.withStatus 0
    | "-" :: names => reset s names
    | [only] => reset s [only]
    | action :: names =>
      if (Numeral.nat? action).isSome then reset s rest
      else
        names.foldl (fun s n =>
          match signal? n with
          | some signal =>
            let s := without s signal
            { s with traps := (signal, action) :: s.traps }
          | none => s.refuse 1 s!"trap: {n}: bad trap") (s.withStatus 0)

/-- The signal and the processes that a call of `kill` names. -/
def killRequest (operands : List String) : Except String (Nat × List String) :=
  match operands with
  | "-s" :: name :: targets =>
    match signal? name with
    | some n => .ok (n, targets)
    | none => .error s!"invalid signal number or name: {name}"
  | "--" :: targets => .ok (15, targets)
  | first :: targets =>
    match first.toList with
    | '-' :: name =>
      match signal? (String.ofList name) with
      | some n => .ok (n, if targets.head? = some "--" then targets.tail else targets)
      | none => .error s!"Illegal option -{String.ofList (name.take 1)}"
    | _ => .ok (15, first :: targets)
  | [] => .ok (15, [])

def killUsage : String :=
  "Usage: kill [-s sigspec | -signum | -sigspec] [pid | job]... or\nkill -l [exitstatus]"

/-- The name of a signal, which may be given by the status of a process that it ended. -/
def signalName (n : Nat) : String :=
  let n := if n > 128 then n - 128 else n
  ((Signal.ofNumber? n).map Signal.name).getD (toString n)

/-- Sends a signal.  Gives the action of a trap that is to be run. -/
def builtinKill (s : State) (operands : List String) : Option String × State :=
  match operands with
  | ["-l", n] => (none, s.say "kill" (World.bytes (signalName ((Numeral.nat? n).getD 0) ++ "\n")))
  | _ =>
  match killRequest operands with
  | .error problem => (none, s.refuse 2 s!"kill: {problem}")
  | .ok (_, []) => (none, s.refuse 2 s!"kill: {killUsage}")
  | .ok (signal, targets) =>
    if targets.contains State.ownNumber || targets.contains "0" then (s.withStatus 0).signalled signal
    else if targets.contains State.parentNumber && signal = 0 then (none, s.withStatus 0)
    else (none, s.refuse 1 "kill: No such process\n")

def builtinPrintf (s : State) (operands : List String) : State :=
  match operands.dropWhile (· == "--") with
  | [] => s.refuse 2 "printf: usage: printf format [arg ...]"
  | format :: operands =>
    let p := Format.printf format operands
    let s := s.say "printf" p.output
    p.problems.foldl (fun s problem => s.refuse (if p.malformed then 2 else 1) s!"printf: {problem}") s

def builtinTest (s : State) (name : String) (words : List String) : State :=
  match Condition.decide? s.world words with
  | .ok true => s.withStatus 0
  | .ok false => s.withStatus 1
  | .error problem => s.refuse 2 s!"{name}: {problem.message}"

def builtinBracket (s : State) (words : List String) : State :=
  match words.reverse with
  | "]" :: inside => builtinTest s "[" inside.reverse
  | _ => s.refuse 2 "[: missing ]"

/-- The names of all commands that the shell carries out itself. -/
def builtinNames : List String :=
  specialNames ++ ["[", "alias", "cd", "command", "echo", "false", "hash", "kill", "local", "printf", "pwd", "read",
    "test", "true", "type", "ulimit", "umask", "wait"]

/-- Carries out a command that concerns this shell only, if there is one of this name. -/
def builtin? (s : State) (name : String) (operands : List String) : Option State :=
  match name with
  | ":" | "true" | "wait" | "umask" | "ulimit" | "hash" | "alias" | "times" => some (s.withStatus 0)
  | "false" => some (s.withStatus 1)
  | "exit" => some (builtinExit s operands)
  | "return" => some (builtinReturn s operands)
  | "break" => some (builtinLeave s name false operands)
  | "continue" => some (builtinLeave s name true operands)
  | "shift" => some (builtinShift s operands)
  | "set" => some (builtinSet s operands)
  | "export" => some (builtinExport s operands)
  | "readonly" => some (builtinReadonly s operands)
  | "local" => some (builtinLocal s operands)
  | "unset" => some (builtinUnset s operands)
  | "cd" => some (builtinChange s operands)
  | "read" => some (builtinRead s operands)
  | "trap" => some (builtinTrap s operands)
  | "echo" => some (s.say "echo" (Format.echo operands))
  | "printf" => some (builtinPrintf s operands)
  | "pwd" => some (s.say "pwd" (World.bytes (Utility.pathText s.world.here ++ "\n")))
  | "test" => some (builtinTest s "test" operands)
  | "[" => some (builtinBracket s operands)
  | _ => none

end TapeLang.Host.Shell
