import TapeLang.CommandLine.Script

/-!
# Files in memory

A tree of directories and files, with the answers a system gives when a path leads nowhere, through a file, or to
the wrong kind of entry.  `Files.resolve` says where a path leads; the other operations look at what is there.
-/

namespace TapeLang.Host

open CommandLine (OsError)

/-- The names on the way from the root. -/
abbrev Path := List String

inductive Device
  /-- Reading finds the end, and what is written is lost. -/
  | null
  /-- There is no room for what is written. -/
  | full
  /-- The terminal of a process, which has none. -/
  | terminal
  /-- The stream that a process has under a number. -/
  | stream (number : Nat)
deriving DecidableEq, Repr

inductive Node
  | file (content : List UInt8) (executable : Bool)
  /-- In a fixed directory nothing can be made. -/
  | directory (fixed : Bool) (children : List (String × Node))
  | link (target : String)
  | device (d : Device)
  /-- A program that is known by its name and not by its content. -/
  | program (name : String)
deriving Repr

namespace Node

def emptyDirectory : Node := directory false []

def isDirectory : Node → Bool
  | directory _ _ => true
  | _ => false

def isFixed : Node → Bool
  | directory fixed _ => fixed
  | _ => false

def children : Node → List (String × Node)
  | directory _ children => children
  | _ => []

def child? (n : Node) (name : String) : Option Node := n.children.lookup name

/-- Puts something under a name, or takes away what is there. -/
def setChild (n : Node) (name : String) (new : Option Node) : Node :=
  match n with
  | directory fixed children =>
    let others := children.filter fun c => c.1 != name
    directory fixed (match new with | some new => (name, new) :: others | none => others)
  | n => n

/-- Changes what is at a path whose directories exist. -/
def update (new : Option Node) : Path → Node → Node
  | [], n => new.getD n
  | [name], n => n.setChild name new
  | name :: rest, n =>
    match n.child? name with
    | some c => n.setChild name (some (c.update new rest))
    | none => n

/-- What is at a path. -/
def get? : Path → Node → Option Node
  | [], n => some n
  | name :: rest, n => (n.child? name).bind (get? rest)

mutual

/-- The regular files at and below a node that stands at `path`. -/
def regular (path : String) : Node → List (String × List UInt8)
  | file content _ => [(path, content)]
  | directory _ children => regularAmong path children
  | link _ | device _ | program _ => []

def regularAmong (path : String) : List (String × Node) → List (String × List UInt8)
  | [] => []
  | (name, n) :: rest => regular (if path.isEmpty then name else path ++ "/" ++ name) n ++ regularAmong path rest

end

end Node

structure Files where
  root : Node
deriving Repr

/-- Where a path leads: to something that exists, or to a free name in a directory that exists. -/
structure Place where
  path : Path
  node : Option Node

/-- The directories on the way from the root, the innermost first. -/
abbrev Trail := List (String × Node)

def Trail.path (t : Trail) : Path := (t.map Prod.fst).reverse

namespace Files

def put (fs : Files) (path : Path) (n : Node) : Files := ⟨fs.root.update (some n) path⟩

def erase (fs : Files) (path : Path) : Files := ⟨fs.root.update none path⟩

def get? (fs : Files) (path : Path) : Option Node := fs.root.get? path

/-- The number of bytes that the name of an entry may have. -/
def maxName : Nat := 255

/-- The number of bytes that a path may have. -/
def maxPath : Nat := 4095

/-- How many links are followed for one path. -/
def maxLinks : Nat := 40

/-- Follows names from the directory at the end of a trail, up to a link that has to be followed; `again` goes on from
there.  A link at the very end is followed if `last` says so. -/
def walk (fs : Files) (last : Bool) (again : Trail → List String → Except OsError Place) (t : Trail) :
    List String → Except OsError Place
  | [] => .ok ⟨t.path, some ((t.head?.map Prod.snd).getD fs.root)⟩
  | name :: rest =>
    if name = "" ∨ name = "." then walk fs last again t rest
    else if name = ".." then walk fs last again t.tail rest
    else if name.utf8ByteSize > maxName then .error .nameTooLong
    else
      match ((t.head?.map Prod.snd).getD fs.root).child? name with
      | some (.directory fixed children) => walk fs last again ((name, .directory fixed children) :: t) rest
      | some (.link target) =>
        if rest.isEmpty && !last then .ok ⟨t.path ++ [name], some (.link target)⟩
        else again (if target.startsWith "/" then [] else t) (target.splitOn "/" ++ rest)
      | some n => if rest.isEmpty then .ok ⟨t.path ++ [name], some n⟩ else .error .notDirectory
      | none => if rest.all String.isEmpty then .ok ⟨t.path ++ [name], none⟩ else .error .notFound

def follow (fs : Files) (last : Bool) : Nat → Trail → List String → Except OsError Place
  | 0 => fs.walk last fun _ _ => .error .tooManyLinks
  | links + 1 => fs.walk last (fs.follow last links)

/-- The trail to a directory. -/
def trailTo (fs : Files) (here : Path) : Trail :=
  (here.foldl (fun (state : Trail × Option Node) name =>
    match state.2.bind (Node.child? · name) with
    | some n => ((name, n) :: state.1, some n)
    | none => (state.1, none)) ([], some fs.root)).1

/-- Looks up a path as it is written, seen from the directory `here`. -/
def lookUp (fs : Files) (last : Bool) (here : Path) (path : String) : Except OsError Place :=
  if path.isEmpty then .error .notFound
  else if path.utf8ByteSize > maxPath then .error .nameTooLong
  else fs.follow last maxLinks (if path.startsWith "/" then [] else fs.trailTo here) (path.splitOn "/")

/-- Where a path leads. -/
def resolve (fs : Files) : Path → String → Except OsError Place := fs.lookUp true

/-- The entry that a path names, which may be a link. -/
def entry (fs : Files) : Path → String → Except OsError Place := fs.lookUp false

/-- Is a new entry possible at this path? -/
def hasRoom (fs : Files) (path : Path) : Bool := !((fs.get? path.dropLast).map Node.isFixed).getD true

/-- Makes a new entry. -/
def make (fs : Files) (path : Path) (n : Node) : Except OsError Files :=
  if fs.hasRoom path then .ok (fs.put path n) else .error .notFound

/-- Replaces the content of a file, or makes a new file. -/
def write (fs : Files) (here : Path) (path : String) (content : List UInt8) : Except OsError Files := do
  let place ← fs.resolve here path
  match place.node with
  | some (.file _ executable) => return fs.put place.path (.file content executable)
  | some (.directory _ _) => throw .isDirectory
  | some (.program _) => return fs.put place.path (.file content true)
  | some _ => return fs
  | none =>
    if path.endsWith "/" then throw .isDirectory
    fs.make place.path (.file content false)

/-- A path without slashes at its end, unless it has nothing else. -/
def trimSlashes (path : String) : String :=
  match path.toList.reverse.dropWhile (· == '/') with
  | [] => if path.isEmpty then "" else "/"
  | cs => String.ofList cs.reverse

/-- Makes one directory.  That there is a file already counts before the slash behind its name. -/
def makeDirectory (fs : Files) (here : Path) (path : String) : Except OsError Files := do
  if path.utf8ByteSize > maxPath then throw .nameTooLong
  let place ← fs.entry here (trimSlashes path)
  match place.node with
  | some _ => throw .exists_
  | none => fs.make place.path .emptyDirectory

def node? (fs : Files) (here : Path) (path : String) : Option Node :=
  (fs.resolve here path).toOption.bind Place.node

def isDirectory (fs : Files) (here : Path) (path : String) : Bool :=
  ((fs.node? here path).map Node.isDirectory).getD false

/-- The names a path is made of.  A `.` counts only in front. -/
def components (path : String) : List String :=
  match path.splitOn "/" with
  | "." :: rest => "." :: proper rest
  | names => proper names
where
  proper (names : List String) : List String := names.filter fun name => name != "" && name != "."

/-- The paths above a path that names come after, the shortest first, and the path itself last. -/
def stages (path : String) : List String :=
  let start := if path.startsWith "/" then "/" else ""
  let names := components path
  let above := (List.range (names.length - 1)).map fun n => start ++ "/".intercalate (names.take (n + 1))
  (if start.isEmpty then [] else [start]) ++ above ++ [path]

/-- Makes one directory, which is no failure if it is there already. -/
def ensureDirectory (fs : Files) (here : Path) (path : String) : Except OsError Files :=
  match fs.makeDirectory here path with
  | .ok fs => .ok fs
  | .error e => if fs.isDirectory here path then .ok fs else .error e

/-- Goes up from the last path of a list, given in reverse, to one that exists or can be made, and then makes those
that were missing.  Only that something above is missing is a reason to go up. -/
def makeUpwards (fs : Files) (here : Path) : List String → Except OsError Files
  | [] => .ok fs
  | path :: above =>
    match fs.makeDirectory here path with
    | .ok fs => .ok fs
    | .error .notFound => do
      let fs ← fs.makeUpwards here above
      fs.ensureDirectory here path
    | .error e => if fs.isDirectory here path then .ok fs else .error e

/-- Makes a directory and those above it that are missing. -/
def makeDirectories (fs : Files) (here : Path) (path : String) : Except OsError Files :=
  if path.isEmpty then .ok fs else fs.makeUpwards here (stages path).reverse

/-- Removes anything but a directory. -/
def remove (fs : Files) (here : Path) (path : String) : Except OsError Files := do
  let place ← fs.entry here path
  match place.node with
  | some (.directory _ _) => throw .isDirectory
  | some _ => return fs.erase place.path
  | none => throw .notFound

def removeDirectory (fs : Files) (here : Path) (path : String) : Except OsError Files := do
  let place ← fs.entry here path
  match place.node with
  | some (.directory _ children) => if children.isEmpty then return fs.erase place.path else throw .notEmpty
  | some _ => throw .notDirectory
  | none => throw .notFound

def removeTree (fs : Files) (here : Path) (path : String) : Except OsError Files := do
  let place ← fs.entry here path
  match place.node with
  | some _ => return fs.erase place.path
  | none => throw .notFound

/-- Sets whether a file can be started. -/
def setExecutable (fs : Files) (here : Path) (path : String) (executable : Bool) : Except OsError Files := do
  let place ← fs.resolve here path
  match place.node with
  | some (.file content _) => return fs.put place.path (.file content executable)
  | some _ => return fs
  | none => throw .notFound

/-- The files below a directory, by their paths from there, in ascending order. -/
def below (fs : Files) (here : Path) : List (String × List UInt8) :=
  let found := ((fs.get? here).map (Node.regular "")).getD []
  found.mergeSort fun a b => decide (a.1 ≤ b.1)

end Files

end TapeLang.Host
