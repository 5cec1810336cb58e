import TapeLang.Host.Glob
import TapeLang.Host.Shell.Arithmetic
import TapeLang.Host.Shell.State

/-!
# Expansion

Words become fields: parameters, outputs of scripts and arithmetic are put in, what was not quoted is split, and
patterns become the names of files.
-/

namespace TapeLang.Host.Shell

/-- A word on its way to becoming fields: the finished fields, the latest first, and the field that is being built. -/
structure Fields where
  finished : List Marked
  current : Option Marked
  /-- Was the last field ended by a blank? -/
  soft : Bool

namespace Fields

def none : Fields := ⟨[], .none, false⟩

def extend (f : Fields) (m : Marked) : Fields := ⟨f.finished, some (f.current.getD [] ++ m), false⟩

def close (f : Fields) (soft : Bool) : Fields :=
  match f.current with
  | some m => ⟨m :: f.finished, .none, soft⟩
  | .none => { f with soft := f.soft || soft }

/-- Adds a character of an expansion, at which a field may end. -/
def split (separators : List Char) (f : Fields) (c : Char × Bool) : Fields :=
  if c.2 || !separators.contains c.1 then f.extend [c]
  else if c.1 = ' ' ∨ c.1 = '\t' ∨ c.1 = '\n' then f.close true
  else if f.soft && f.current.isNone then { f with soft := false }
  else (f.extend []).close false

/-- Adds what an expansion gives. -/
def add (f : Fields) (separators : Option (List Char)) (m : Marked) : Fields :=
  match separators with
  | some separators => m.foldl (split separators) f
  | .none => f.extend m

/-- Adds texts that make a field each. -/
def separate (add : Fields → String → Fields) (f : Fields) : List String → Fields
  | [] => f
  | [last] => add f last
  | text :: rest => separate add ((add f text).close false) rest

def toList (f : Fields) : List Marked := (f.close false).finished.reverse

/-- All fields as one. -/
def joined (f : Fields) : Marked := (f.toList.intersperse [(' ', true)]).flatten

end Fields

/-- How to run a script in a shell; its first line has the given number. -/
abbrev Runner := State → Nat → List Char → State

/-- The output of a script without the line ends at its end, and the shell after it. -/
def capture (run : Runner) (s : State) (line : Nat) (script : List Char) : String × State :=
  let (w, c) := s.world.newQueue []
  let copy := run { s.copied with world := w.setChannel 1 c } line script
  let bytes := copy.world.waiting c
  let text := World.text ((bytes.reverse.dropWhile (· == 10)).reverse.filter (· != 0))
  let after := { s with world := w }.afterCopy copy
  (text, { after with status := s.status, substituted := after.status })

/-- Expands the operand of an operation, as text with marks. -/
abbrev OperandExpander := State → List Char → Marked × State

/-- The value of a parameter with an operation, or nothing if the script is given up. -/
def applyOperation (operand : OperandExpander) (s : State) (name : String) (operation : Operation)
    (text : List Char) :
    Option Marked × State :=
  let value := s.parameter? name
  let isMissing (orEmpty : Bool) : Bool := value.isNone || (orEmpty && value == some "")
  let plain : Marked := Marked.ofText false (value.getD "")
  match operation with
  | .length =>
    let n := if name = "@" ∨ name = "*" then s.arguments.length else (value.getD "").length
    (some (Marked.ofText false (toString n)), s)
  | .default orEmpty =>
    if isMissing orEmpty then
      let (m, s) := operand s text
      (some m, s)
    else (some plain, s)
  | .assign orEmpty =>
    if isMissing orEmpty then
      let (m, s) := operand s text
      (some m, s.bind name m.text)
    else (some plain, s)
  | .demand orEmpty =>
    if isMissing orEmpty then
      let (m, s) := operand s text
      let reason :=
        if m.isEmpty then (if orEmpty then "parameter not set or null" else "parameter not set") else m.text
      (none, s.abandon s!"{name}: {reason}")
    else (some plain, s)
  | .alternative orEmpty =>
    if isMissing orEmpty then (some [], s)
    else
      let (m, s) := operand s text
      (some m, s)
  | .cut atEnd longest =>
    let (m, s) := operand s text
    let cs := (value.getD "").toList
    let lengths := if atEnd then Glob.endings m cs else Glob.beginnings m cs
    let chosen := if longest != atEnd then lengths.getLast? else lengths.head?
    let rest :=
      match chosen with
      | some n => if atEnd then cs.take n else cs.drop n
      | none => cs
    (some (Marked.ofText false (String.ofList rest)), s)
  | .malformed => (none, s.abandon "Bad substitution")

/-- Puts one piece of a word in.  Without separators nothing is split. -/
def expandPiece (run : Runner) (operand : OperandExpander) (splitting : Bool) (state : Fields × State) (p : Piece) :
    Fields × State :=
  let (f, s) := state
  let add (quoted : Bool) (f : Fields) (m : Marked) : Fields :=
    if quoted then f.extend (m.map fun c => (c.1, true))
    else f.add (if splitting then some s.separators else none) m
  if !s.isRunning then (f, s)
  else
    match p with
    | .text c quoted => (f.extend [(c, quoted)], s)
    | .empty => (f.extend [], s)
    | .parameter "@" none quoted =>
      if splitting then
        (Fields.separate (fun f t => add quoted f (Marked.ofText quoted t)) f s.arguments, s)
      else (f.extend (Marked.ofText quoted (" ".intercalate s.arguments)), s)
    | .parameter "*" none quoted =>
      if splitting && !quoted then
        (Fields.separate (fun f t => add false f (Marked.ofText false t)) f s.arguments, s)
      else
        let between := match s.separators with | c :: _ => String.singleton c | [] => ""
        (f.extend (Marked.ofText quoted (between.intercalate s.arguments)), s)
    | .parameter name none quoted =>
      match s.parameter? name with
      | some value => (add quoted f (Marked.ofText quoted value), s)
      | none =>
        if s.has 'u' then (f, s.abandon s!"{name}: parameter not set") else (add quoted f [], s)
    | .parameter name (some (operation, text)) quoted =>
      match applyOperation operand s name operation text with
      | (some m, s) => (add quoted f m, s)
      | (none, s) => (f, s)
    | .output script anew quoted =>
      let (text, s) := capture run s (if anew then 1 else s.line) script
      (add quoted f (Marked.ofText quoted text), s)
    | .arithmetic expression quoted =>
      let (m, s) := operand s expression
      match Arithmetic.evaluate (fun name => (s.parameter? name).getD "") m.text with
      | .ok (n, assigned) =>
        let s := assigned.reverse.foldl (fun s a => s.bind a.1 (toString a.2)) s
        (add quoted f (Marked.ofText quoted (toString n)), s)
      | .error problem => (f, s.abandon (problem.message m.text))

/-- Expands a word whose operands are nested to the given depth. -/
def expand (run : Runner) : Nat → Bool → State → Word → Fields × State
  | 0, _, s, _ => (Fields.none, s)
  | depth + 1, splitting, s, w =>
    let operand (s : State) (text : List Char) : Marked × State :=
      let (f, s) := expand run depth false s (Word.ofText text)
      (f.joined, s)
    w.foldl (expandPiece run operand splitting) (Fields.none, s)

/-- How deep the operands of expansions may be nested. -/
def maxNesting : Nat := 100

/-- A word that starts with a tilde starts in the home directory. -/
def homeward (s : State) (w : Word) : Word :=
  let home := ((s.bindings.lookup "HOME").getD "").toList.map fun c => Piece.text c true
  match w with
  | [.text '~' false] => home
  | .text '~' false :: .text '/' false :: rest => home ++ .text '/' false :: rest
  | w => w

/-- The fields of a word. -/
def expandFields (run : Runner) (s : State) (w : Word) : List String × State :=
  let (f, s) := expand run maxNesting true s (homeward s w)
  let fields := f.toList.flatMap fun m =>
    if s.has 'f' then [m.text] else Glob.expand s.world.files s.world.here m
  (fields, s)

/-- A word as one text with marks, not split. -/
def expandMarked (run : Runner) (s : State) (w : Word) : Marked × State :=
  let (f, s) := expand run maxNesting false s (homeward s w)
  (f.joined, s)

def expandText (run : Runner) (s : State) (w : Word) : String × State :=
  let (m, s) := expandMarked run s w
  (m.text, s)

/-- The fields of all words. -/
def expandAll (run : Runner) (s : State) : List Word → List String × State
  | [] => ([], s)
  | w :: rest =>
    let (fields, s) := expandFields run s w
    let (more, s) := expandAll run s rest
    (fields ++ more, s)

end TapeLang.Host.Shell
