import TapeLang.Host.Files

/-!
# The world of a process

The files, the directory a process works in, its environment and its streams.  A process knows streams by numbers;
where a number leads is a `Channel`.
-/

namespace TapeLang.Host

open CommandLine (OsError)

/-- Where bytes come from or go to. -/
inductive Channel
  | input
  | output
  | errors
  /-- Bytes that wait to be read. -/
  | queue (id : Nat)
  /-- The end of a file. -/
  | file (path : Path)
  | null
  | full
deriving DecidableEq, Repr

structure World where
  files : Files
  /-- The working directory. -/
  here : Path
  /-- The name under which the process was started. -/
  called : String
  environment : List (String × String)
  channels : List (Nat × Channel)
  /-- What can still be read from the standard input. -/
  input : List UInt8
  output : Array UInt8
  errors : Array UInt8
  queues : List (Nat × List UInt8)

namespace World

def bytes (text : String) : List UInt8 := text.toUTF8.toList

/-- The text that bytes spell; a byte that is no part of a character is replaced. -/
def text (bytes : List UInt8) : String :=
  match String.fromUTF8? ⟨bytes.toArray⟩ with
  | some text => text
  | none => String.ofList (bytes.map fun b => if b < 128 then Char.ofNat b.toNat else '\uFFFD')

/-- The directories in which programs are looked for. -/
def searchPath : List String :=
  ["/usr/local/sbin", "/usr/local/bin", "/usr/sbin", "/usr/bin", "/sbin", "/bin"]

def standardChannels : List (Nat × Channel) := [(0, .input), (1, .output), (2, .errors)]

/-- The world of a process that was just started. -/
def initial (files : Files) (here : Path) (input : List UInt8) : World where
  files := files
  here := here
  called := ""
  environment := [("PATH", ":".intercalate searchPath), ("HOME", "/root"), ("PWD", "/" ++ "/".intercalate here)]
  channels := standardChannels
  input := input
  output := #[]
  errors := #[]
  queues := []

/-- What another process did to the world it shares with this one. -/
def after (w : World) (other : World) : World :=
  { other with here := w.here, called := w.called, environment := w.environment, channels := w.channels }

def setChannel (w : World) (number : Nat) (c : Channel) : World :=
  { w with channels := (number, c) :: w.channels.filter fun e => e.1 != number }

def closeChannel (w : World) (number : Nat) : World :=
  { w with channels := w.channels.filter fun e => e.1 != number }

/-- A new queue that holds the given bytes. -/
def newQueue (w : World) (bytes : List UInt8) : World × Channel :=
  let id := w.queues.length
  ({ w with queues := (id, bytes) :: w.queues }, .queue id)

def setQueue (w : World) (id : Nat) (bytes : List UInt8) : World :=
  { w with queues := w.queues.map fun q => if q.1 == id then (id, bytes) else q }

/-- The bytes that wait in a channel. -/
def waiting (w : World) : Channel → List UInt8
  | .input => w.input
  | .queue id => (w.queues.lookup id).getD []
  | _ => []

/-- Takes the bytes of a channel but for the given rest. -/
def leave (w : World) (c : Channel) (rest : List UInt8) : World :=
  match c with
  | .input => { w with input := rest }
  | .queue id => w.setQueue id rest
  | _ => w

/-- Adds bytes to a channel, if it takes them. -/
def send (w : World) (bytes : List UInt8) (c : Channel) : Except OsError World :=
  match c with
  | .output => .ok { w with output := w.output ++ bytes.toArray }
  | .errors => .ok { w with errors := w.errors ++ bytes.toArray }
  | .queue id => .ok (w.setQueue id ((w.queues.lookup id).getD [] ++ bytes))
  | .file path =>
    match w.files.get? path with
    | some (.file content executable) =>
      .ok { w with files := w.files.put path (.file (content ++ bytes) executable) }
    | _ => .ok w
  | .null => .ok w
  | .full => .error .noSpace
  | .input => .error .badDescriptor

/-- Writes to a stream of this process. -/
def write (w : World) (number : Nat) (bytes : List UInt8) : Except OsError World :=
  match w.channels.lookup number with
  | some c => w.send bytes c
  | none => .error .badDescriptor

/-- Writes what can be written. -/
def print (w : World) (number : Nat) (text : String) : World := (w.write number (bytes text)).toOption.getD w

/-- The channel behind a device. -/
def ofDevice (w : World) : Device → Except OsError Channel
  | .null => .ok .null
  | .full => .ok .full
  | .terminal => .error .noSuchDevice
  | .stream number =>
    match w.channels.lookup number with
    | some c => .ok c
    | none => .error .notFound

/-- Opens a file for reading. -/
def openToRead (w : World) (path : String) : Except OsError (World × Channel) := do
  match (← w.files.resolve w.here path).node with
  | some (.file content _) => return w.newQueue content
  | some (.directory _ _) => throw .isDirectory
  | some (.device d) => return (w, ← w.ofDevice d)
  | some (.program _) => return (w, .null)
  | some (.link _) | none => throw .notFound

/-- Opens a file for writing at its end; unless `append` holds, the end is then the start. -/
def openToWrite (w : World) (path : String) (append : Bool) : Except OsError (World × Channel) := do
  let place ← w.files.resolve w.here path
  match place.node with
  | some (.device d) => return (w, ← w.ofDevice d)
  | some (.file content _) =>
    let files ← w.files.write w.here path (if append then content else [])
    return ({ w with files := files }, .file place.path)
  | _ => return ({ w with files := ← w.files.write w.here path [] }, .file place.path)

/-- The whole content of a file. -/
def readFile (w : World) (path : String) : Except OsError (List UInt8 × World) := do
  match (← w.files.resolve w.here path).node with
  | some (.file content _) => return (content, w)
  | _ =>
    let (w, c) ← w.openToRead path
    return (w.waiting c, w.leave c [])

/-- Makes the given bytes the content of a file. -/
def writeFile (w : World) (path : String) (content : List UInt8) : Except OsError World := do
  let (w, c) ← w.openToWrite path false
  w.send content c

/-- Applies a change to the files, if it is possible. -/
def change (w : World) (f : Files → Path → Except OsError Files) : Except OsError World :=
  (f w.files w.here).map fun files => { w with files := files }

end World

end TapeLang.Host
