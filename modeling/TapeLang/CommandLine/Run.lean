import TapeLang.C.Emit
import TapeLang.C.Printer
import TapeLang.CommandLine.Options
import TapeLang.CommandLine.Script
import TapeLang.Execution
import TapeLang.Listing
import TapeLang.Lowering

/-!
# What the command line does

Read the file, make a program of it, list it if asked, and then one of three things: print it as C, compile it and
run the result, or interpret it.  Each stage is reached only if the one before went well.  A run ends with an exit
code.

What is wanted on standard error, a listing or statistics, must get there: where it cannot be written the run is cut
off.  A failure is reported if that is possible.
-/

namespace TapeLang.CommandLine

/-- A failure, and what caused it. -/
structure Failure where
  context : String
  cause : Option String
deriving DecidableEq, Repr

def Failure.message (f : Failure) : String :=
  match f.cause with
  | some cause => s!"Error: {f.context}\n\nCaused by:\n    {cause}\n"
  | none => s!"Error: {f.context}\n"

/-- The exit code of a run that is cut off. -/
def cutOff : Nat := 101

def fail (f : Failure) : Script Nat := do
  let _ ← Script.printError f.message
  return 1

/-- Writes to standard error and goes on, or is cut off.  Nothing is written for an empty text. -/
def report (text : String) (next : Script Nat) : Script Nat :=
  if text.isEmpty then next
  else do
    match ← Script.printError text with
    | .ok _ => next
    | .error _ => return cutOff

/-- The path of a file in a directory. -/
def inDirectory (directory name : String) : String :=
  if directory.isEmpty || directory.endsWith "/" then directory ++ name else directory ++ "/" ++ name

def sourceName : String := "program.c"

def binaryName : String := "program"

/-- Hands C to the compiler.  Gives the path of what the compiler made. -/
def compile (o : Options) (directory text : String) : Script (Except Failure String) := do
  let source := inDirectory directory sourceName
  let binary := inDirectory directory binaryName
  match ← Script.makeDirectories directory with
  | .error e => return .error ⟨s!"could not create {directory}", some e.message⟩
  | .ok _ =>
    match ← Script.writeFile source text with
    | .error e => return .error ⟨s!"could not write {source}", some e.message⟩
    | .ok _ =>
      match ← Script.start o.compiler [source, o.level, "-o", binary] with
      | .error e => return .error ⟨s!"could not start C compiler `{o.compiler}`", some e.message⟩
      | .ok status =>
        if status.success then return .ok binary
        else return .error ⟨s!"C compiler `{o.compiler}` failed ({status.text})", none⟩

/-- Runs what the compiler made. -/
def runBinary (binary : String) : Script (Except Failure ExitStatus) := do
  match ← Script.start binary [] with
  | .error e => return .error ⟨s!"could not run {binary}", some e.message⟩
  | .ok status => return .ok status

def compileAndRun (o : Options) (directory text : String) : Script (Except Failure ExitStatus) := do
  match ← compile o directory text with
  | .error f => return .error f
  | .ok binary => runBinary binary

/-- A temporary directory is removed again, whatever happened. -/
def native (o : Options) (text : String) : Script Nat := do
  let outcome ←
    match o.workDir with
    | some directory => compileAndRun o directory text
    | none => do
      let directory ← Script.temporaryDirectory
      let outcome ← compileAndRun o directory text
      let _ ← Script.removeTree directory
      pure outcome
  match outcome with
  | .error f => fail f
  | .ok status =>
    if status.success then return 0
    else fail ⟨s!"native program exited with {status.text}", none⟩

def statisticsTitle : String := "Printing statistics\n"

def interpret (o : Options) (program : Program) : Script Nat := do
  match ← Script.interpret program with
  | .error f => fail ⟨f.runMessage, some f.description⟩
  | .ok counters =>
    if o.stats then report statisticsTitle (report s!"{counters.table}\n" (return 0))
    else return 0

def Options.optimizations (o : Options) : Optimizations :=
  if o.literal then .none else .all

/-- Prints a program as C. -/
def emit (text : String) : Script Nat := do
  match ← Script.printOut text with
  | .ok _ => return 0
  | .error e => fail ⟨e.message, none⟩

/-- Does with a program what the options ask for. -/
def carryOn (o : Options) (program : Program) : Script Nat :=
  if o.emitC then emit program.toC.render
  else if o.native then native o program.toC.render
  else interpret o program

def run (o : Options) : Script Nat := do
  match ← Script.readFile o.file with
  | .error e => fail ⟨s!"could not read {o.file}", some e.message⟩
  | .ok source =>
    match Program.ofSource o.optimizations source with
    | .error e => fail ⟨s!"could not translate {o.file}", some e.message⟩
    | .ok program =>
      if o.dumpListing then report program.listing (carryOn o program)
      else carryOn o program

def versionText : String := "brainyuck 0.1.0\n"

def helpText : String :=
  versionText ++ "optimizing Brainfuck interpreter and C translator\n\n"
    ++ "USAGE:\n    brainyuck [FLAGS] [OPTIONS] <filename>\n"

def usageErrorText : String := "usage error"

/-- Answers a question about the program itself. -/
def inform (text : String) : Script Nat := do
  match ← Script.printOut text with
  | .ok _ => return 0
  | .error _ => return cutOff

/-- The whole command line, from the arguments to the exit code. -/
def ofArguments (arguments : List String) : Script Nat :=
  match Options.parse arguments with
  | .ok o => run o
  | .error .version => inform versionText
  | .error .help => inform helpText
  | .error (.refused _) => do
    let _ ← Script.printError usageErrorText
    return 1

end TapeLang.CommandLine
