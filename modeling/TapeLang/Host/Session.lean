import TapeLang.Host.Shell.Run

/-!
# The command line on a host in memory

A session is a run of the command line on files and streams in memory, with shell scripts and utilities as the
programs that can be started.
-/

namespace TapeLang.Host

/-- The directory that a session works in. -/
def workingDirectory : Path := ["work", "session"]

/-- A file or a directory that a session finds. -/
structure Given where
  name : String
  node : Node
deriving Repr

/-- Puts a file or a directory where its name says, with the directories above it. -/
def place (files : Files) (g : Given) : Files :=
  let path := workingDirectory ++ (g.name.splitOn "/").filter fun name => name != "" && name != "."
  let above := ((List.range path.length).map path.take).filter fun p => (files.get? p).isNone
  let files := above.foldl (fun files p => files.put p .emptyDirectory) files
  if g.node.isDirectory && (files.get? path).isSome then files else files.put path g.node

def directoryOf (children : List (String × Node)) : Node := .directory false children

/-- The programs that a host has, besides those that are found in the working directory. -/
def programs : Node :=
  directoryOf ((["sh", "env"] ++ Utility.names).map (fun name => (name, .program name)) ++ [("dash", .link "sh")])

def devices : Node :=
  directoryOf [("null", .device .null), ("full", .device .full), ("tty", .device .terminal),
    ("stdin", .link "/proc/self/fd/0"), ("stdout", .link "/proc/self/fd/1"), ("stderr", .link "/proc/self/fd/2"),
    ("fd", .link "/proc/self/fd"), ("shm", .emptyDirectory), ("pts", .emptyDirectory)]

/-- The streams of a process as files. -/
def streams : Node :=
  .directory true [("0", .device (.stream 0)), ("1", .device (.stream 1)), ("2", .device (.stream 2))]

/-- The files of a host on which nothing was done yet. -/
def pristine : Files :=
  let empty (name : String) : String × Node := (name, .emptyDirectory)
  let system : List (String × Node) :=
    [("bin", .link "usr/bin"), ("sbin", .link "usr/sbin"), ("lib", .link "usr/lib"), ("dev", devices),
      ("proc", .directory true [
        ("self", .directory true [("fd", streams), ("cwd", .link ("/" ++ "/".intercalate workingDirectory))]),
        (Shell.State.parentNumber, .directory true [("exe", .program commandLineName)])]),
      ("usr", directoryOf [("bin", programs), empty "sbin", empty "lib", empty "share",
        ("local", directoryOf [empty "bin", empty "sbin", empty "lib"])]),
      ("var", directoryOf [empty "tmp", empty "log", empty "lib"])]
  let root := system ++ ["etc", "home", "mnt", "opt", "root", "run", "srv", "sys", "tmp"].map empty
  let files : Files := ⟨directoryOf root⟩
  (files.put (workingDirectory.take 1) .emptyDirectory).put workingDirectory .emptyDirectory

/-- The world before a session. -/
def World.ofGiven (given : List Given) (input : List UInt8) : World :=
  World.initial (given.foldl place pristine) workingDirectory input

/-- Runs the command line; gives the exit code and the world after it. -/
def session (arguments : List String) (given : List Given) (input : List UInt8) : Nat × World :=
  commandLine (Shell.start (Shell.exec Shell.maxDepth)) (World.ofGiven given input) arguments

/-- The files of the working directory that were not given with the same content, in ascending order. -/
def created (given : List Given) (w : World) : List (String × List UInt8) :=
  let before := (World.ofGiven given []).files.below workingDirectory
  (w.files.below workingDirectory).filter fun file => !before.contains file

end TapeLang.Host
