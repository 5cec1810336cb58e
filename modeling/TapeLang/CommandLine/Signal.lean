/-!
# Signals

The signals that can end a process, with the names under which scripts and reports know them.
-/

namespace TapeLang.CommandLine

structure Signal where
  number : Nat
  /-- The name without `SIG`. -/
  name : String
  /-- What is said about a process that the signal ended. -/
  description : String
  /-- Does the signal end a process that makes no arrangements for it? -/
  fatal : Bool
deriving DecidableEq, Repr

namespace Signal

def all : List Signal :=
  [⟨1, "HUP", "Hangup", true⟩, ⟨2, "INT", "Interrupt", true⟩, ⟨3, "QUIT", "Quit", true⟩,
    ⟨4, "ILL", "Illegal instruction", true⟩, ⟨5, "TRAP", "Trace/breakpoint trap", true⟩,
    ⟨6, "ABRT", "Aborted", true⟩, ⟨7, "BUS", "Bus error", true⟩, ⟨8, "FPE", "Floating point exception", true⟩,
    ⟨9, "KILL", "Killed", true⟩, ⟨10, "USR1", "User defined signal 1", true⟩,
    ⟨11, "SEGV", "Segmentation fault", true⟩, ⟨12, "USR2", "User defined signal 2", true⟩,
    ⟨13, "PIPE", "Broken pipe", true⟩, ⟨14, "ALRM", "Alarm clock", true⟩, ⟨15, "TERM", "Terminated", true⟩,
    ⟨16, "STKFLT", "Stack fault", true⟩, ⟨17, "CHLD", "Child exited", false⟩, ⟨18, "CONT", "Continued", false⟩,
    ⟨19, "STOP", "Stopped (signal)", false⟩, ⟨20, "TSTP", "Stopped", false⟩,
    ⟨21, "TTIN", "Stopped (tty input)", false⟩, ⟨22, "TTOU", "Stopped (tty output)", false⟩,
    ⟨23, "URG", "Urgent I/O condition", false⟩, ⟨24, "XCPU", "CPU time limit exceeded", true⟩,
    ⟨25, "XFSZ", "File size limit exceeded", true⟩, ⟨26, "VTALRM", "Virtual timer expired", true⟩,
    ⟨27, "PROF", "Profiling timer expired", true⟩, ⟨28, "WINCH", "Window changed", false⟩,
    ⟨29, "IO", "I/O possible", true⟩, ⟨30, "PWR", "Power failure", true⟩, ⟨31, "SYS", "Bad system call", true⟩]

def ofNumber? (n : Nat) : Option Signal := all.find? fun s => s.number == n

def ofName? (name : String) : Option Signal := all.find? fun s => s.name == name

/-- The largest number of a signal. -/
def last : Nat := 64

/-- How a report names the signal with a given number, if it has a name. -/
def mention (n : Nat) : String :=
  match ofNumber? n with
  | some s => s!" (SIG{s.name})"
  | none => ""

/-- What is said about a process that signal `n` ended. -/
def describe (n : Nat) : String :=
  match ofNumber? n with
  | some s => s.description
  | none => s!"Real-time signal {n - 34}"

/-- Does signal `n` end a process that makes no arrangements for it?  Signals without a name do. -/
def ends (n : Nat) : Bool := ((ofNumber? n).map Signal.fatal).getD true

end Signal

end TapeLang.CommandLine
