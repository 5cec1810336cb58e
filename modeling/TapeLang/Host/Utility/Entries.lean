import TapeLang.Host.Condition
import TapeLang.Host.Utility.Action

/-!
# Utilities on files

What copies, moves, removes and makes files and directories, and what takes their names apart.
-/

namespace TapeLang.Host.Utility

open CommandLine (OsError)

def dirname (path : String) : String :=
  let cs := (Files.trimSlashes path).toList
  if cs == ['/'] then "/"
  else if cs.contains '/' then
    Files.trimSlashes (String.ofList (cs.reverse.dropWhile (· != '/')).reverse)
  else "."

def basename (path : String) : String :=
  let cs := (Files.trimSlashes path).toList
  if cs == ['/'] then "/" else String.ofList (cs.reverse.takeWhile (· != '/')).reverse

/-- A name without an ending, unless it is nothing but the ending. -/
def withoutEnding (name ending : String) : String :=
  if name.endsWith ending && name != ending then (name.dropEnd ending.length).toString else name

/-- Where a file goes that is copied or moved to `target`. -/
def destination (w : World) (source target : String) : String :=
  if w.files.isDirectory w.here target then
    (if target.endsWith "/" then target else target ++ "/") ++ basename source
  else target

/-- Puts a node at a path, in place of what is there. -/
def install (fs : Files) (here : Path) (path : String) (n : Node) : Except OsError Files := do
  let place ← fs.resolve here path
  match place.node with
  | some (.directory _ _) => throw .isDirectory
  | some _ => return fs.put place.path n
  | none => fs.make place.path n

def copy (recursive : Bool) (source target : String) : Action := do
  let w ← get
  match w.files.resolve w.here source with
  | .ok ⟨_, some n⟩ =>
    if n.isDirectory && !recursive then
      complain s!"-r not specified; omitting directory '{source}'"
      return 1
    let target := destination w source target
    let n :=
      match n, w.files.node? w.here target with
      | .file content _, some (.file _ executable) => Node.file content executable
      | n, _ => n
    changing (fun fs here => install fs here target n) fun e =>
      s!"cannot create regular file '{target}': {e.text}"
  | .ok ⟨_, none⟩ =>
    complain s!"cannot stat '{source}': {OsError.notFound.text}"
    return 1
  | .error e =>
    complain s!"cannot stat '{source}': {e.text}"
    return 1

def move (source target : String) : Action := do
  let w ← get
  let refuse (e : OsError) : Action := do
    complain s!"cannot stat '{source}': {e.text}"
    return 1
  match w.files.entry w.here source with
  | .ok ⟨from_, some n⟩ =>
    let target := destination w source target
    match (w.files.entry w.here target) with
    | .ok place =>
      if place.path == from_ then
        complain s!"'{source}' and '{target}' are the same file"
        return 1
      changing (fun fs _ => .ok ((fs.put place.path n).erase from_)) fun e => e.text
    | .error e =>
      complain s!"cannot move '{source}' to '{target}': {e.text}"
      return 1
  | .ok ⟨_, none⟩ => refuse .notFound
  | .error e => refuse e

/-- Brings each operand but the last to the last one. -/
def transfer (act : String → String → Action) (operands : List String) : Action := do
  match operands.reverse with
  | target :: source :: more => forEach (source :: more).reverse fun source => act source target
  | [only] => misused s!"missing destination file operand after '{only}'"
  | [] => misused "missing file operand"

def link (a : Arguments) : Action :=
  transfer (fun source target => do
    let w ← get
    let target := destination w source target
    let exists_ := ((w.files.entry w.here target).toOption.bind Place.node).isSome
    if exists_ && !a.has 'f' then
      let kind := if a.has 's' then "symbolic" else "hard"
      complain s!"failed to create {kind} link '{target}': {OsError.exists_.text}"
      return 1
    let failed (e : OsError) : String :=
      if a.has 's' then s!"failed to create symbolic link '{target}': {e.text}"
      else s!"failed to access '{source}': {e.text}"
    changing (fun fs here => do
      let place ← fs.entry here target
      if a.has 's' then fs.make place.path (.link source)
      else
        match (← fs.resolve here source).node with
        | some n => fs.make place.path n
        | none => throw .notFound) failed) a.operands

def remove (a : Arguments) : Action :=
  let act (path : String) (files : Files) (here : Path) : Except OsError Files :=
    match files.remove here path with
    | .ok files => .ok files
    | .error .isDirectory =>
      if a.has 'r' || a.has 'R' then files.removeTree here path
      else if a.has 'd' then files.removeDirectory here path
      else .error .isDirectory
    | .error .notFound => if a.has 'f' then .ok files else .error .notFound
    | .error e => .error e
  if a.operands.isEmpty && a.has 'f' then return 0
  else
    needOperand "operand" a.operands <| forEach a.operands fun path =>
      changing (act path) fun e => s!"cannot remove '{path}': {e.text}"

/-- What a mode says about starting a file, if it says anything. -/
def modeExecutable? (mode : String) : Option Bool :=
  let cs := mode.toList
  if cs.all Numeral.isOctalDigit then some ((cs.reverse.take 3).any fun c => (c.toNat - '0'.toNat) % 2 == 1)
  else if cs.contains 'x' then some (cs.contains '+' || cs.contains '=')
  else if cs.contains '=' then some false
  else none

/-- Is the operand a mode that looks like a flag? -/
def isMode (operand : String) : Bool :=
  match operand.toList with
  | '-' :: c :: cs => (c :: cs).all fun c => "rwxXst".toList.contains c
  | _ => false

def chmod (operands : List String) : Action :=
  withArguments "Rcfv" (operands.filter fun o => !isMode o) fun a =>
  match operands.filter isMode ++ a.operands with
  | mode :: path :: more =>
    forEach (path :: more) fun path =>
      changing (fun files here => do
        match modeExecutable? mode with
        | some executable => files.setExecutable here path executable
        | none => if ((← files.resolve here path).node).isSome then return files else throw .notFound)
        fun e => s!"cannot access '{path}': {e.text}"
  | [mode] => misused s!"missing operand after '{mode}'"
  | [] => misused "missing operand"

def mkdir (a : Arguments) : Action :=
  needOperand "operand" a.operands <| forEach a.operands fun path =>
    changing
      (fun files here =>
        if a.has 'p' && !path.isEmpty then files.makeDirectories here path else files.makeDirectory here path)
      fun e => s!"cannot create directory '{path}': {e.text}"

def touch (operands : List String) : Action :=
  needOperand "file operand" operands <| forEach operands fun path =>
    changing (fun files here => do
      match (← files.resolve here path).node with
      | some _ => return files
      | none => files.write here path []) fun e => s!"cannot touch '{path}': {e.text}"

/-- Decides a condition; nothing at all is false. -/
def test (words : List String) : Action := do
  match Condition.decide? (← get) words with
  | .ok true => return 0
  | .ok false => return 1
  | .error problem =>
    complain problem.message
    return 2

def bracket (words : List String) : Action :=
  match words.reverse with
  | "]" :: inside => test inside.reverse
  | _ => do
    complain "missing ']'"
    return 2

def pathText (path : Path) : String := "/" ++ "/".intercalate path

/-- The names in directories, one a line. -/
def listAll (a : Arguments) : Action := do
  let operands := if a.operands.isEmpty then ["."] else a.operands
  let names (n : Node) : List String :=
    ((n.children.map Prod.fst).filter fun name => a.has 'a' || a.has 'A' || !name.startsWith ".").mergeSort
      fun x y => decide (x ≤ y)
  forEach operands fun operand => do
    let w ← get
    match w.files.resolve w.here operand with
    | .ok ⟨_, some n⟩ =>
      if n.isDirectory && !a.has 'd' then
        if operands.length > 1 then say s!"{operand}:\n"
        let dots := if a.has 'a' then [".", ".."] else []
        say (String.join ((dots ++ names n).map (· ++ "\n")))
      else say (operand ++ "\n")
      return 0
    | .ok ⟨_, none⟩ =>
      complain s!"cannot access '{operand}': {OsError.notFound.text}"
      return 2
    | .error e =>
      complain s!"cannot access '{operand}': {e.text}"
      return 2

/-- Any failure of a listing is a serious one. -/
def list (operands : List String) : Action := do
  let status ← withArguments "1aAdrFhR" operands listAll
  return if status = 0 then 0 else 2

end TapeLang.Host.Utility
