/-!
# Command line options

`Options.parse` reads the arguments from left to right.  An unknown option, a second file name and a request for the
version or for help take effect where they stand; that something is missing or given twice is noticed at the end.
-/

namespace TapeLang.CommandLine

/-- Options that are given or not. -/
inductive Flag
  | emitC
  | native
  | dumpListing
  | literal
  | stats
  | verbose
deriving DecidableEq, Repr

/-- Options with a value. -/
inductive Setting
  | compiler
  | level
  | workDir
deriving DecidableEq, Repr

inductive UsageError
  | unknownOption (argument : String)
  | extraFile (argument : String)
  | missingFile
  | missingValue (setting : Setting)
  | repeatedFlag (flag : Flag)
  | repeatedSetting (setting : Setting)
deriving DecidableEq, Repr

/-- Why the arguments lead to no run. -/
inductive Stop
  | version
  | help
  | refused (error : UsageError)
deriving DecidableEq, Repr

/-- What a name after `--` means. -/
inductive LongName
  | flag (f : Flag)
  | setting (s : Setting)
  | stop (s : Stop)

def Setting.name : Setting → String
  | compiler => "cc"
  | level => "opt-level"
  | workDir => "work-dir"

def defaultCompiler : String := "cc"

def defaultLevel : String := "-O1"

/-- What a setting is without a value of its own. -/
def Setting.default? : Setting → Option String
  | compiler => some defaultCompiler
  | level => some defaultLevel
  | workDir => none

def longNames : List (String × LongName) :=
  [("emit-c", .flag .emitC), ("native", .flag .native), ("dump-ir", .flag .dumpListing),
    ("no-optimize", .flag .literal), ("stats", .flag .stats), ("verbose", .flag .verbose),
    (Setting.compiler.name, .setting .compiler), (Setting.level.name, .setting .level),
    (Setting.workDir.name, .setting .workDir), ("version", .stop .version), ("help", .stop .help)]

/-- A value of this setting may start with a hyphen, so it takes whatever comes next. -/
def Setting.takesHyphens (s : Setting) : Bool := s == .level

/-- The argument starts something new, rather than being a value: it starts with a hyphen and is more than that. -/
def startsOption (argument : String) : Bool :=
  match argument.toList with
  | '-' :: _ :: _ => true
  | _ => false

def isLong (argument : String) : Bool :=
  match argument.toList with
  | '-' :: '-' :: _ => true
  | _ => false

/-- The name of a long option, without hyphens, and the value behind its `=`. -/
def splitLong (argument : String) : String × Option String :=
  let body := argument.toList.dropWhile (· == '-')
  let name := String.ofList (body.takeWhile (· != '='))
  match body.dropWhile (· != '=') with
  | [] => (name, none)
  | rest => (name, some (String.ofList (rest.dropWhile (· == '='))))

/-- What was found among the arguments, the latest first. -/
structure Draft where
  file : Option String
  flags : List Flag
  settings : List (Setting × Option String)

namespace Draft

def empty : Draft := ⟨none, [], []⟩

def addFile (d : Draft) (argument : String) : Except Stop Draft :=
  match d.file with
  | none => .ok { d with file := some argument }
  | some _ => .error (.refused (.extraFile argument))

def addFlag (d : Draft) (f : Flag) : Draft := { d with flags := f :: d.flags }

def addSetting (d : Draft) (s : Setting) (value : Option String) : Draft :=
  { d with settings := (s, value) :: d.settings }

/-- Single letters behind one hyphen. -/
def addLetters (argument : String) : List Char → Draft → Except Stop Draft
  | [], d => .ok d
  | 'v' :: rest, d => addLetters argument rest (d.addFlag .verbose)
  | 'V' :: _, _ => .error .version
  | 'h' :: _, _ => .error .help
  | _ :: _, _ => .error (.refused (.unknownOption argument))

/-- Reads the arguments behind `--`. -/
def addFiles : List String → Draft → Except Stop Draft
  | [], d => .ok d
  | argument :: rest, d => (d.addFile argument).bind (addFiles rest)

/-- Notes that the setting that waits for a value does not get one. -/
def giveUp (d : Draft) : Option Setting → Draft
  | some s => d.addSetting s none
  | none => d

/-- Reads arguments while `waiting` may still get its value. -/
def read (waiting : Option Setting) : List String → Draft → Except Stop Draft
  | [], d => .ok (d.giveUp waiting)
  | argument :: rest, d =>
    match waiting.filter fun s => s.takesHyphens || !startsOption argument with
    | some s => read none rest (d.addSetting s (some argument))
    | none =>
      let d := d.giveUp waiting
      if argument = "--" then addFiles rest d
      else if isLong argument then
        let (name, value) := splitLong argument
        match longNames.lookup name with
        | some (.flag f) => read none rest (d.addFlag f)
        | some (.setting s) =>
          match value with
          | some v => read none rest (d.addSetting s (some v))
          | none => read (some s) rest d
        | some (.stop s) => .error s
        | none => .error (.refused (.unknownOption argument))
      else if startsOption argument then
        (addLetters argument (argument.toList.drop 1) d).bind (read none rest)
      else (d.addFile argument).bind (read none rest)

end Draft

structure Options where
  file : String
  emitC : Bool
  native : Bool
  compiler : String
  /-- The flag that tells the compiler how much to optimize. -/
  level : String
  /-- Where files for the compiler go; a temporary directory if there is no choice. -/
  workDir : Option String
  dumpListing : Bool
  /-- Take every loop literally. -/
  literal : Bool
  stats : Bool
  verbosity : Nat
deriving DecidableEq, Repr

namespace Options

/-- Is the flag given?  Only `verbose` may be given more than once. -/
def flag (d : Draft) (f : Flag) : Except Stop Bool :=
  match d.flags.count f with
  | 0 => .ok false
  | 1 => .ok true
  | _ => .error (.refused (.repeatedFlag f))

/-- The value of a setting.  A setting that stands there without a value has its default, so only one without a
default is refused. -/
def setting (d : Draft) (s : Setting) : Except Stop (Option String) :=
  match d.settings.filter (fun entry => entry.1 == s) with
  | [] => .ok s.default?
  | [(_, value)] =>
    match value.or s.default? with
    | some value => .ok (some value)
    | none => .error (.refused (.missingValue s))
  | _ => .error (.refused (.repeatedSetting s))

def ofDraft (d : Draft) : Except Stop Options := do
  let some file := d.file | throw (.refused .missingFile)
  return {
    file := file
    emitC := ← flag d .emitC
    native := ← flag d .native
    compiler := (← setting d .compiler).getD defaultCompiler
    level := (← setting d .level).getD defaultLevel
    workDir := ← setting d .workDir
    dumpListing := ← flag d .dumpListing
    literal := ← flag d .literal
    stats := ← flag d .stats
    verbosity := d.flags.count .verbose }

def parse (arguments : List String) : Except Stop Options :=
  (Draft.read none arguments Draft.empty).bind ofDraft

end Options

end TapeLang.CommandLine
