import TapeLang.Host.Calls
import TapeLang.Host.Shell.Builtin

/-!
# Programs

What is started under a path: a script, which names the program that runs it in its first line, or a program that is
known by its name.  A script can also start the command line itself.
-/

namespace TapeLang.Host.Shell

open CommandLine (ExitStatus OsError)

/-- How a shell runs a command; the flag says that a failure is looked at and does not end the script. -/
abbrev Exec := Bool → State → Command → State

/-- Runs a text as a part of the script. -/
def runText (exec : Exec) : Runner := fun s line text =>
  (Command.ofText line text).foldl (exec false) s

/-- Ends a shell, which may have something to run before. -/
def close (exec : Exec) (s : State) : State :=
  match s.outcome, (s.traps.lookup 0).filter fun action => !action.isEmpty with
  | .exited code, some action =>
    let ready := { s with flow := .running, traps := s.traps.filter (fun t => t.1 != 0), interrupted := some code }
    let last := runText exec ready 1 action.toList
    match last.flow with
    | .ended status => { last with flow := .ended status }
    | _ => { last with status := code, flow := .ended (.exited code) }
  | _, _ => s

/-- Runs a script from its start to its end. -/
def runScript (exec : Exec) (w : World) (name : String) (arguments : List String) (options : List Char)
    (text : List Char) : ExitStatus × World :=
  let s := close exec (runText exec (State.initial w name arguments options) 1 text)
  (s.outcome, s.world)

/-- The shell as a program, started under a name. -/
def shellProgram (exec : Exec) (w : World) (name : String) (arguments : List String) : ExitStatus × World :=
  match Settings.read true (arguments.length + 1) ⟨[], false⟩ arguments with
  | .error problem => (.exited 2, w.print 2 s!"{name}: 0: {problem}\n")
  | .ok (settings, operands) =>
    let operands := operands.getD []
    let fromInput := settings.options.contains 's' || operands.isEmpty
    match settings.inline, operands with
    | true, text :: rest => runScript exec w (rest.headD name) (rest.drop 1) settings.options text.toList
    | true, [] => (.exited 2, w.print 2 s!"{name}: 0: -c requires an argument\n")
    | false, path :: rest =>
      if fromInput then runInput w settings.options operands
      else
        match w.readFile path with
        | .ok (content, w) => runScript exec w path rest settings.options (World.text content).toList
        | .error e =>
          let reason := if e = .notFound ∨ e = .notDirectory then "No such file" else e.text
          (.exited 2, w.print 2 s!"{name}: 0: cannot open {path}: {reason}\n")
    | false, [] => runInput w settings.options []
where
  runInput (w : World) (options : List Char) (operands : List String) : ExitStatus × World :=
    let (content, w) := Utility.allInput.run w
    runScript exec w name operands options (World.text content).toList

def isSpaceOrTab (b : UInt8) : Bool := b == 32 || b == 9

/-- How much of a file is looked at for its first line. -/
def headerSize : Nat := 256

/-- The program that the first line of a script names, and the one argument that may follow.  The name may be empty
only where the file ends before it. -/
def interpreter? (content : List UInt8) : Option (String × Option String) :=
  match content with
  | 35 :: 33 :: _ =>
    let header := content.take headerSize
    let whole := header.contains 10
    let line := (if whole then header.takeWhile (· != 10) else header.take (headerSize - 1)).drop 2
    let body := (line.reverse.dropWhile isSpaceOrTab).reverse.dropWhile isSpaceOrTab
    let name := body.takeWhile fun b => !isSpaceOrTab b && b != 0
    let argument := ((body.drop name.length).dropWhile isSpaceOrTab).takeWhile (· != 0)
    -- A name that runs into the end of what is looked at may have been cut off.
    let cutOff := content.length ≥ headerSize && name.length == body.length
    if (if whole then name.isEmpty else cutOff) then none
    else some (World.text name, if argument.isEmpty then none else some (World.text argument))
  | _ => none

/-- Starts what is found under a name without a slash in one of the directories.  Only that nothing is there, or that
it cannot be started, lets the search go on. -/
def search (execute : String → Except OsError (ExitStatus × World)) (refused : Bool) (name : String) :
    List String → Except OsError (ExitStatus × World)
  | [] => .error (if refused then .accessDenied else .notFound)
  | directory :: rest =>
    match execute (directory ++ "/" ++ name) with
    | .error .notFound | .error .notDirectory => search execute refused name rest
    | .error .accessDenied => search execute true name rest
    | result => result

/-- Starts what a command names: a path, or a name that is looked for. -/
def dispatch (execute : String → Except OsError (ExitStatus × World)) (directories : List String) (command : String) :
    Except OsError (ExitStatus × World) :=
  if command.toList.contains '/' then execute command
  else if command.isEmpty then .error .notFound
  else search execute false command directories

/-- Sets names in front of a command, and starts it in that environment. -/
def environmentProgram (start : World → String → List String → Except OsError (ExitStatus × World)) (w : World) :
    List String → ExitStatus × World
  | [] => (.exited 0, w.print 1 (String.join (w.environment.map fun b => b.1 ++ "=" ++ b.2 ++ "\n")))
  | "-i" :: rest | "-" :: rest => environmentProgram start { w with environment := [] } rest
  | "-u" :: name :: rest =>
    environmentProgram start { w with environment := w.environment.filter fun b => b.1 != name } rest
  | "-S" :: rest => environmentProgram start w rest
  | argument :: rest =>
    match nameAndValue argument with
    | (name, some value) =>
      let others := w.environment.filter fun b => b.1 != name
      environmentProgram start { w with environment := others ++ [(name, value)] } rest
    | (_, none) =>
      match start w argument rest with
      | .ok (status, after) => (status, after)
      | .error e =>
        let w := w.print 2 s!"{w.called}: '{argument}': {e.text}\n"
        if e = .notFound then
          let hint := s!"{w.called}: use -[v]S to pass options in shebang lines\n"
          (.exited 127, if argument.toList.contains ' ' then w.print 2 hint else w)
        else (.exited 126, w)

def searchPathOf (w : World) : List String :=
  match w.environment.lookup "PATH" with
  | some path => path.splitOn ":"
  | none => World.searchPath

/-- Starts what is at a path, under the name by which it was called.  Programs that run programs are followed so many
times. -/
def execute (exec : Exec) : Nat → World → String → List String → String → Except OsError (ExitStatus × World)
  | 0, _, _, _, _ => .error .tooManyLinks
  | depth + 1, w, called, arguments, path => do
    if path.isEmpty then throw .accessDenied
    match (← w.files.resolve w.here path).node with
    | none | some (.link _) => throw .notFound
    | some (.directory _ _) | some (.device _) => throw .accessDenied
    | some (.file content executable) =>
      if !executable then throw .accessDenied
      match interpreter? content with
      | none => throw .execFormat
      | some (name, argument) => execute exec depth w name (argument.toList ++ path :: arguments) name
    | some (.program name) =>
      let nested (w : World) (command : String) (operands : List String) : Except OsError (ExitStatus × World) :=
        (dispatch (execute exec depth w command operands) (searchPathOf w) command).map fun r => (r.1, w.after r.2)
      if name = "sh" then return shellProgram exec w called arguments
      else if name = commandLineName then
        let (code, w) := commandLine nested w arguments
        return (.exited code, w)
      else if name = "env" then
        let words :=
          match arguments with
          | first :: rest =>
            -- All of a first line behind the name of a program is one argument.
            if first.startsWith "-S " then (first.drop 3).toString.splitOn " " ++ rest else arguments
          | [] => []
        return environmentProgram nested { w with called := called } words
      else
        match Utility.run? name arguments with
        | some action =>
          let (status, w) := action.run { w with called := called }
          return (.exited status, w)
        | none => throw .execFormat

/-- How often a script may name another one as its interpreter, and a little more. -/
def maxHops : Nat := 6

/-- Starts a program in a world that it shares with the one that starts it. -/
def start (exec : Exec) (w : World) (command : String) (arguments : List String) :
    Except OsError (ExitStatus × World) :=
  (dispatch (execute exec maxHops w command arguments) (searchPathOf w) command).map fun r => (r.1, w.after r.2)

end TapeLang.Host.Shell
