import TapeLang.Host.Shell.Program

/-!
# Running scripts

What each command does to the state of a shell.  Commands inside commands, scripts called by scripts included, are
followed to a fixed depth, and loops for a fixed number of passes.
-/

namespace TapeLang.Host.Shell

open CommandLine (ExitStatus OsError Signal)

/-- How many passes a loop may have. -/
def maxPasses : Nat := 1000000

/-- The reason why a file is not opened. -/
def openProblem (creating : Bool) (e : OsError) : String :=
  if e = .notFound ∨ e = .notDirectory then (if creating then "Directory nonexistent" else "No such file") else e.text

/-- Changes the streams as redirections say, or says why one cannot be opened. -/
def redirect (run : Runner) (s : State) : List Redirect → Except State State
  | [] => .ok s
  | r :: rest =>
    let (target, s) := expandText run s r.target
    if !s.isRunning then .error s
    else
      match r.mode with
      | .here =>
        let (w, c) := s.world.newQueue (World.bytes target)
        redirect run { s with world := w.setChannel r.stream c } rest
      | .duplicate =>
        if target = "-" then redirect run { s with world := s.world.closeChannel r.stream } rest
        else
          match (Numeral.nat? target).map fun n => s.world.channels.lookup n with
          | some (some c) => redirect run { s with world := s.world.setChannel r.stream c } rest
          | some none => .error (s.refuse 2 s!"{target}: {OsError.badDescriptor.text}")
          | none => .error (s.refuse 2 s!"Syntax error: Bad fd number")
      | .input =>
        match s.world.openToRead target with
        | .ok (w, c) => redirect run { s with world := w.setChannel r.stream c } rest
        | .error e => .error (s.refuse 2 s!"cannot open {target}: {openProblem false e}")
      | mode =>
        match s.world.openToWrite target (mode == .append) with
        | .ok (w, c) => redirect run { s with world := w.setChannel r.stream c } rest
        | .error e => .error (s.refuse 2 s!"cannot create {target}: {openProblem true e}")

/-- Gives a shell its streams back. -/
def State.restore (s before : State) : State :=
  { s with world := { s.world with channels := before.world.channels } }

/-- Sets names in front of a command, in the order in which they stand. -/
def assignAll (run : Runner) (s : State) : List (String × Word) → State
  | [] => s
  | (name, w) :: rest =>
    let (value, s) := expandText run s w
    assignAll run (if s.isRunning then s.bind name value else s) rest

/-- Runs a program that is not a part of the shell; `caller` goes in front of a complaint. -/
def external (exec : Exec) (s : State) (caller name : String) (operands : List String) : State :=
  let w := { s.world with environment := s.environment }
  let script (path : String) : Except OsError (ExitStatus × World) :=
    (w.readFile path).map fun r => runScript exec r.2 path operands [] (World.text r.1).toList
  -- What is no program of its own is taken for a script.
  let execute (path : String) : Except OsError (ExitStatus × World) :=
    match execute exec maxHops w name operands path with
    | .error .execFormat => script path
    | result => result
  match dispatch execute s.searchPath name with
  | .ok (.exited code, after) => { s with world := s.world.after after, status := code }
  | .ok (.killed signal, after) =>
    let s := { s with world := s.world.after after, status := 128 + signal }
    if signal = 2 ∨ signal = 13 then s
    else { s with world := s.world.print 2 (Signal.describe signal ++ "\n") }
  | .error e =>
    if name.isEmpty then s.refuse 127 s!"{caller}: {OsError.accessDenied.text}"
    else if e = .notFound ∨ e = .notDirectory then s.refuse 127 s!"{caller}{name}: not found"
    -- The search for a name ends with the same status, whatever it found.
    else s.refuse (if name.toList.contains '/' then 126 else 127) s!"{caller}{name}: {e.text}"

/-- Where a program of this name is. -/
def whereabouts (s : State) (name : String) : Option String :=
  let isProgram (path : String) : Bool := Condition.ofFile s.world "-x" path && !Condition.ofFile s.world "-d" path
  if name.toList.contains '/' then (if isProgram name then some name else none)
  else (s.searchPath.map fun d => d ++ "/" ++ name).find? isProgram

/-- What a name is to the shell itself. -/
def kindOf (s : State) (name : String) : Option String :=
  if Command.reserved.contains name then some "shell keyword"
  else if (s.functions.lookup name).isSome then some "shell function"
  else if specialNames.contains name then some "special shell builtin"
  else if builtinNames.contains name then some "shell builtin"
  else none

/-- Runs the body of a function with its own arguments. -/
def callFunction (exec : Exec) (tested : Bool) (s : State) (body : Command) (operands : List String) : State :=
  let after := (exec tested { s with arguments := operands, locals := [], loops := 0 } body).delocalize
  { after with
    arguments := s.arguments
    locals := s.locals
    loops := s.loops
    flow := if after.flow = .returning then .running else after.flow }

/-- Runs a text that is not a part of the file of the script. -/
def runFrom (exec : Exec) (tested : Bool) (source : String) (s : State) (text : List Char) : State :=
  let after := (Command.ofText 1 text).foldl (exec tested) { s with source := some source, status := 0 }
  { after with source := s.source }

/-- Runs a command that is given by its fields. -/
def callByName (exec : Exec) (tested : Bool) (s : State) (name : String) (operands : List String) : State :=
  match name with
  | "eval" => runFrom exec tested name s (" ".intercalate operands).toList
  | "." =>
    match operands with
    | [] => s.withStatus 0
    | path :: _ =>
      match s.world.readFile path with
      | .ok (content, w) =>
        let after := runFrom exec false path { s with world := w } (World.text content).toList
        { after with flow := if after.flow = .returning then .running else after.flow }
      | .error e =>
        if path.toList.contains '/' then s.apart (·.abandon s!".: cannot open {path}: {openProblem false e}")
        else s.apart (·.abandon s!".: {path}: not found")
  | "kill" =>
    match builtinKill { s with source := none } operands with
    | (some action, after) =>
      let ready := { after with source := s.source, interrupted := some after.status }
      let last := runText exec ready 1 action.toList
      if last.isRunning then { last with status := after.status, interrupted := s.interrupted } else last
    | (none, after) => { after with source := s.source }
  | _ =>
    match builtin? { s with source := none } name operands with
    | some after => { after with source := s.source }
    | none => external exec s "" name operands

/-- Runs a command that is given by its fields, where a function comes first. -/
def call (exec : Exec) (tested : Bool) (s : State) (name : String) (operands : List String) : State :=
  match s.functions.lookup name with
  | some body => callFunction exec tested s body operands
  | none =>
    match name, operands with
    | "command", "-v" :: target :: _ =>
      match kindOf s target, whereabouts s target with
      | some _, _ => s.say name (World.bytes (target ++ "\n"))
      | none, some path => s.say name (World.bytes (path ++ "\n"))
      | none, none => s.withStatus 127
    | "type", targets => targets.foldl (fun s target =>
      match kindOf s target, whereabouts s target with
      | some kind, _ => s.say name (World.bytes s!"{target} is a {kind}\n")
      | none, some path => s.say name (World.bytes s!"{target} is {path}\n")
      | none, none => (s.say name (World.bytes s!"{target}: not found\n")).withStatus 127) s
    | "command", target :: operands => callByName exec tested s target operands
    | "exec", [] => s.withStatus 0
    | "exec", target :: operands =>
      let after := s.apart fun s => external exec s "exec: " target operands
      { after with flow := .ended (.exited after.status) }
    | name, operands => callByName exec tested s name operands

/-- Shows a command before it is run. -/
def trace (s : State) (assignments : List String) (fields : List String) : State :=
  if s.has 'x' then
    { s with world := s.world.print 2 ("+ " ++ " ".intercalate (assignments ++ fields) ++ "\n") }
  else s

/-- Runs a simple command: fields first, then streams, then assignments, which only stay if there is nothing else. -/
def runSimple (exec : Exec) (tested : Bool) (s : State) (line : Nat) (assignments : List (String × Word))
    (words : List Word) (redirects : List Redirect) : State :=
  let run := runText exec
  let (fields, s) := expandAll run { s with line := line, substituted := 0 } words
  if !s.isRunning then s
  else
    match redirect run s redirects with
    | .error after =>
      let after := after.restore s
      if (fields.head?.map specialNames.contains).getD false && after.isRunning then after.exit 2 else after
    | .ok redirected =>
      let assigned := assignAll run redirected assignments
      if !assigned.isRunning then assigned.restore s
      else
        let shown := assignments.map fun a => a.1 ++ "=" ++ (assigned.bindings.lookup a.1).getD ""
        let traced := trace assigned shown fields
        match fields with
        | [] => (traced.restore s).withStatus assigned.substituted
        | name :: operands =>
          let names := assignments.map Prod.fst
          let visible := { traced with exported := names.filter (!traced.exported.contains ·) ++ traced.exported }
          let after := call exec tested visible name operands
          let after := if name = "exec" ∧ operands.isEmpty then after else after.restore s
          if names.isEmpty then after
          else if specialNames.contains name then { after with exported := s.exported }
          else
            { after with
              bindings := s.bindings.filter (fun b => names.contains b.1) ++
                after.bindings.filter fun b => !names.contains b.1
              exported := s.exported }

/-- A failure that nobody looks at ends a script that asked for that. -/
def checked (tested : Bool) (s : State) : State :=
  if s.has 'e' && !tested && s.isRunning && s.status != 0 then s.exit s.status else s

/-- Repeats a body; `last` is the status of the latest pass. -/
def repeatBody (exec : Exec) (tested wanted : Bool) (condition body : Command) : Nat → Nat → State → State
  | 0, last, s => s.withStatus last
  | passes + 1, last, s =>
    let s := exec true s condition
    match s.flow with
    | .running =>
      if (s.status == 0) != wanted then s.withStatus last
      else
        let (s, again) := (exec tested s body).afterBody
        if again then repeatBody exec tested wanted condition body passes s.status s else s
    | _ =>
      let (s, again) := s.afterBody
      if again then repeatBody exec tested wanted condition body passes last s else s

def runEach (exec : Exec) (tested : Bool) (name : String) (body : Command) : List String → State → State
  | [], s => s
  | field :: rest, s =>
    let (s, again) := (exec tested (s.bind name field) body).afterBody
    if again then runEach exec tested name body rest s else s

/-- Does one of the patterns fit? -/
def fitsAny (run : Runner) (text : String) : State → List Word → Bool × State
  | s, [] => (false, s)
  | s, w :: rest =>
    let (m, s) := expandMarked run s w
    if Glob.fits (Glob.ofMarked m) text.toList then (true, s) else fitsAny run text s rest

/-- The first arm with a pattern that fits. -/
def chooseArm (run : Runner) (text : String) : State → List (List Word × Command) → Option Command × State
  | s, [] => (none, s)
  | s, (patterns, body) :: rest =>
    match fitsAny run text s patterns with
    | (true, s) => (some body, s)
    | (false, s) => chooseArm run text s rest

/-- Runs a part of a script on a copy of the shell. -/
def runCopy (exec : Exec) (tested : Bool) (s : State) (c : Command) : State :=
  s.afterCopy (close exec (exec tested s.copied c))

/-- Runs a command, given how the commands in it are run. -/
def step (exec : Exec) (tested : Bool) (s : State) (c : Command) : State :=
  let run := runText exec
  match c with
  | .nothing => s
  | .simple line assignments words redirects =>
    checked tested (runSimple exec tested s line assignments words redirects)
  | .pipe a b =>
    let (w, c) := s.world.newQueue []
    let writer := runCopy exec tested { s with world := w.setChannel 1 c } a
    let middle := { s with world := s.world.after writer.world }
    let reader := runCopy exec tested { middle with world := middle.world.setChannel 0 c } b
    checked tested (reader.restore s)
  | .negated c =>
    let s := exec true s c
    if s.isRunning then s.withStatus (if s.status = 0 then 1 else 0) else s
  | .andThen a b =>
    let s := exec true s a
    if s.isRunning && s.status == 0 then exec tested s b else s
  | .orElse a b =>
    let s := exec true s a
    if s.isRunning && s.status != 0 then exec tested s b else s
  | .sequence a b => exec tested (exec tested s a) b
  | .background c =>
    let after := runCopy exec true s c
    if after.isRunning then after.withStatus 0 else after
  | .subshell c => checked tested (runCopy exec tested s c)
  | .redirected line c redirects =>
    match redirect run { s with line := line } redirects with
    | .error after => after.restore s
    | .ok redirected => (exec tested redirected c).restore s
  | .branch condition yes no =>
    let s := exec true s condition
    if !s.isRunning then s
    else if s.status = 0 then exec tested s yes
    else
      match no with
      | .nothing => s.withStatus 0
      | no => exec tested s no
  | .loop wanted condition body =>
    { repeatBody exec tested wanted condition body maxPasses 0 { s with loops := s.loops + 1 } with loops := s.loops }
  | .iterate line name words body =>
    let s := { s with line := line }
    let (fields, s) :=
      match words with
      | some words => expandAll run s words
      | none => (s.arguments, s)
    if !s.isRunning then s
    else if fields.isEmpty then s.withStatus 0
    else { runEach exec tested name body fields { s with loops := s.loops + 1 } with loops := s.loops }
  | .choice line w arms =>
    let (text, s) := expandText run { s with line := line } w
    match chooseArm run text s arms with
    | (some .nothing, s) | (none, s) => if s.isRunning then s.withStatus 0 else s
    | (some body, s) => exec tested s body
  | .define name body => { s with functions := (name, body) :: s.functions, status := 0 }
  | .malformed line text => { s with line := line }.abandon text

/-- Runs a command with so many levels of commands inside.  Once the script has ended, or asked for that, nothing is
run. -/
def exec : Nat → Exec
  | 0, _, s, _ => s.exit 2
  | depth + 1, tested, s, c => if s.isRunning && !s.has 'n' then step (exec depth) tested s c else s

/-- How deep commands may be nested. -/
def maxDepth : Nat := 2000

end TapeLang.Host.Shell
