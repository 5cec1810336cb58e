import TapeLang.Host.Shell.Lexeme

/-!
# Commands of the shell

The grammar of scripts.  A script is read line by line, as it is run: a line that cannot be read becomes a command
that says so, and the lines before it are not affected.
-/

namespace TapeLang.Host.Shell

inductive Command
  | nothing
  | simple (line : Nat) (assignments : List (String × Word)) (words : List Word) (redirects : List Redirect)
  | pipe (a b : Command)
  | negated (c : Command)
  | andThen (a b : Command)
  | orElse (a b : Command)
  | sequence (a b : Command)
  | background (c : Command)
  | subshell (c : Command)
  | redirected (line : Nat) (c : Command) (redirects : List Redirect)
  | branch (condition yes no : Command)
  /-- Repeats the body as long as the condition has the wanted outcome. -/
  | loop (wanted : Bool) (condition body : Command)
  /-- Runs the body for each field of the words, or for each argument. -/
  | iterate (line : Nat) (name : String) (words : Option (List Word)) (body : Command)
  | choice (line : Nat) (w : Word) (arms : List (List Word × Command))
  | define (name : String) (body : Command)
  /-- A line that cannot be read. -/
  | malformed (line : Nat) (text : String)

/-- Commands whose failure ends a script. -/
def specialNames : List String :=
  [":", ".", "break", "continue", "eval", "exec", "exit", "export", "readonly", "return", "set", "shift", "times",
    "trap", "unset"]

/-- Why a script cannot be read. -/
structure SyntaxError where
  line : Nat
  text : String
deriving DecidableEq, Repr

/-- Something that was read, and the lexemes after it. -/
abbrev Read (α : Type) := α × List Located

namespace Command

def reserved : List String :=
  ["!", "case", "do", "done", "elif", "else", "esac", "fi", "for", "if", "in", "then", "until", "while",
    String.singleton openBrace, String.singleton closeBrace]

/-- The reserved word that a lexeme is where a command may begin. -/
def keyword? : Lexeme → Option String
  | .word w => (Word.literal? w).filter reserved.contains
  | _ => none

/-- How a lexeme is called in a complaint. -/
def describe (asKeyword : Bool) (l : Lexeme) : String :=
  match l with
  | .word _ =>
    match (keyword? l).filter fun _ => asKeyword with
    | some k => s!"\"{k}\""
    | none => "word"
  | .redirect _ _ | .here _ _ => "redirection"
  | .newline => "newline"
  | .semicolon => "\";\""
  | .endCase => "\";;\""
  | .background => "\"&\""
  | .andThen => "\"&&\""
  | .orElse => "\"||\""
  | .pipe => "\"|\""
  | .openRound => "\"(\""
  | .closeRound => "\")\""
  | .broken text => text

/-- The complaint about the next lexeme; `last` is the line where the script ends. -/
def unexpected {α : Type} (last : Nat) (expecting : String) (ls : List Located) : Except SyntaxError α :=
  let wanted := if expecting.isEmpty then "" else s!" (expecting {expecting})"
  match ls with
  | (line, .broken text) :: _ => .error ⟨line, text⟩
  | (line, l) :: _ => .error ⟨line, describe true l ++ " unexpected" ++ wanted⟩
  | [] => .error ⟨last, "end of file unexpected" ++ wanted⟩

def skipNewlines : List Located → List Located
  | (_, .newline) :: rest => skipNewlines rest
  | ls => ls

/-- The reserved word in front. -/
def front? : List Located → Option String
  | (_, l) :: _ => keyword? l
  | [] => none

/-- Takes a reserved word that has to come next. -/
def expect (last : Nat) (k : String) (ls : List Located) : Except SyntaxError (List Located) :=
  if front? ls = some k then .ok ls.tail else unexpected last s!"\"{k}\"" ls

/-- Does a list of commands end before this lexeme? -/
def endsList : List Located → Bool
  | [] => true
  | (_, .closeRound) :: _ | (_, .endCase) :: _ => true
  | ls =>
    match front? ls with
    | some k => ["do", "done", "elif", "else", "esac", "fi", "then", String.singleton closeBrace].contains k
    | none => false

/-- The redirections in front. -/
def redirects (last : Nat) : List Located → Except SyntaxError (Read (List Redirect))
  | (_, .redirect stream mode) :: (_, .word w) :: rest =>
    (redirects last rest).map fun p => (⟨stream, mode, w⟩ :: p.1, p.2)
  | (_, .redirect _ _) :: rest => unexpected last "" rest
  | (_, .here stream text) :: rest => (redirects last rest).map fun p => (⟨stream, .here, text⟩ :: p.1, p.2)
  | ls => .ok ([], ls)

/-- The words in front. -/
def takeWords : List Located → List Word × List Located
  | (_, .word w) :: rest =>
    let (ws, rest) := takeWords rest
    (w :: ws, rest)
  | ls => ([], ls)

/-- The parts of a simple command. -/
structure Parts where
  assignments : List (String × Word)
  words : List Word
  redirects : List Redirect

/-- Reads the parts of a simple command, the latest first. -/
def parts (last : Nat) (acc : Parts) : List Located → Except SyntaxError (Read Parts)
  | (_, .word w) :: rest =>
    match (if acc.words.isEmpty then Word.assignment? w else none) with
    | some a => parts last { acc with assignments := a :: acc.assignments } rest
    | none => parts last { acc with words := w :: acc.words } rest
  | (_, .redirect stream mode) :: (_, .word w) :: rest =>
    parts last { acc with redirects := ⟨stream, mode, w⟩ :: acc.redirects } rest
  | (_, .redirect _ _) :: rest => unexpected last "" rest
  | (_, .here stream text) :: rest =>
    parts last { acc with redirects := ⟨stream, .here, text⟩ :: acc.redirects } rest
  | ls => .ok (acc, ls)

/-- The patterns of an arm, up to the parenthesis that ends them. -/
def patterns (last : Nat) : List Located → Except SyntaxError (Read (List Word))
  | (_, .word w) :: (_, .pipe) :: rest => (patterns last rest).map fun p => (w :: p.1, p.2)
  | (_, .word w) :: (_, .closeRound) :: rest => .ok ([w], rest)
  | (_, .word _) :: rest | rest => unexpected last "\")\"" rest

/-- How a list of commands is read inside another command: whether it may be empty, and the lexemes. -/
abbrev ListParser := Bool → List Located → Except SyntaxError (Read Command)

/-- The arms of a choice. -/
def arms (last : Nat) (inner : ListParser) :
    Nat → List Located → Except SyntaxError (Read (List (List Word × Command)))
  | 0, ls => unexpected last "" ls
  | fuel + 1, ls => do
    let ls := skipNewlines ls
    if front? ls = some "esac" then return ([], ls.tail)
    let ls := match ls with | (_, .openRound) :: rest => rest | ls => ls
    let (ps, ls) ← patterns last ls
    let (body, ls) ← inner true ls
    match skipNewlines ls with
    | (_, .endCase) :: rest => do
      let (more, rest) ← arms last inner fuel rest
      return ((ps, body) :: more, rest)
    | ls => do
      let ls ← if front? ls = some "esac" then .ok ls.tail else unexpected last "\";;\"" ls
      return ([(ps, body)], ls)

/-- What comes after the condition of a branch. -/
def branchRest (last : Nat) (inner : ListParser) : Nat → Command → List Located → Except SyntaxError (Read Command)
  | 0, _, ls => unexpected last "" ls
  | fuel + 1, condition, ls => do
    let ls ← expect last "then" ls
    let (yes, ls) ← inner false ls
    match front? ls with
    | some "elif" => do
      let (next, ls) ← inner false ls.tail
      let (no, ls) ← branchRest last inner fuel next ls
      return (.branch condition yes no, ls)
    | some "else" => do
      let (no, ls) ← inner false ls.tail
      return (.branch condition yes no, ← expect last "fi" ls)
    | _ => return (.branch condition yes .nothing, ← expect last "fi" ls)

def iteration (last : Nat) (inner : ListParser) (ls : List Located) : Except SyntaxError (Read Command) := do
  match ls with
  | (line, .word w) :: rest =>
    let name := (Word.literal? w).getD ""
    if !isName name then throw ⟨line, "Bad for loop variable"⟩
    let rest := skipNewlines rest
    let (words, rest) ← (show Except SyntaxError (Read (Option (List Word))) from
      if front? rest = some "in" then
        match takeWords rest.tail with
        | (words, (_, .newline) :: rest) | (words, (_, .semicolon) :: rest) => .ok (some words, rest)
        | (_, rest) => unexpected last "" rest
      else
        match rest with
        | (_, .semicolon) :: rest => .ok (none, rest)
        | rest => .ok (none, rest))
    let rest ← expect last "do" (skipNewlines rest)
    let (body, rest) ← inner false rest
    return (.iterate line name words body, ← expect last "done" rest)
  | (line, _) :: _ => throw ⟨line, "Bad for loop variable"⟩
  | [] => throw ⟨last, "Bad for loop variable"⟩

def choiceRest (last : Nat) (inner : ListParser) (ls : List Located) : Except SyntaxError (Read Command) := do
  match ls with
  | (line, .word w) :: rest =>
    let rest ← expect last "in" (skipNewlines rest)
    let (as, rest) ← arms last inner (rest.length + 1) rest
    return (.choice line w as, rest)
  | ls => unexpected last "word" ls

/-- The redirections behind a compound command that begins on the given line. -/
def withRedirects (last line : Nat) (c : Command) (ls : List Located) : Except SyntaxError (Read Command) := do
  let (rs, ls) ← redirects last ls
  return (if rs.isEmpty then c else .redirected line c rs, ls)

/-- What comes after a round bracket that has to be closed here. -/
def closing (last : Nat) : List Located → Except SyntaxError (List Located)
  | (_, .closeRound) :: rest => .ok rest
  | ls => unexpected last "\")\"" ls

/-- Reads one command: a compound one, a definition or a simple one. -/
def single (last : Nat) (inner : ListParser) : Nat → List Located → Except SyntaxError (Read Command)
  | 0, ls => unexpected last "" ls
  | fuel + 1, ls => do
    match front? ls, ls with
    | some "if", (line, _) :: rest => do
      let (condition, rest) ← inner false rest
      let (c, rest) ← branchRest last inner (rest.length + 1) condition rest
      withRedirects last line c rest
    | some "while", (line, _) :: rest => do
      let (condition, rest) ← inner false rest
      let (body, rest) ← inner false (← expect last "do" rest)
      withRedirects last line (.loop true condition body) (← expect last "done" rest)
    | some "until", (line, _) :: rest => do
      let (condition, rest) ← inner false rest
      let (body, rest) ← inner false (← expect last "do" rest)
      withRedirects last line (.loop false condition body) (← expect last "done" rest)
    | some "for", (line, _) :: rest => do
      let (c, rest) ← iteration last inner rest
      withRedirects last line c rest
    | some "case", (line, _) :: rest => do
      let (c, rest) ← choiceRest last inner rest
      withRedirects last line c rest
    | some k, (line, _) :: rest =>
      if k = String.singleton openBrace then do
        let (c, rest) ← inner false rest
        withRedirects last line c (← expect last (String.singleton closeBrace) rest)
      else unexpected last "" ls
    | none, (line, .openRound) :: rest => do
      let (c, rest) ← inner false rest
      withRedirects last line (.subshell c) (← closing last rest)
    | none, (line, .word w) :: (opened, .openRound) :: rest => do
      if (Word.assignment? w).isSome then unexpected last "" ((opened, .openRound) :: rest)
      else
        let rest ← closing last rest
        let name := (Word.literal? w).getD ""
        if !isName name || specialNames.contains name then throw ⟨line, "Bad function name"⟩
        let (body, rest) ← single last inner fuel (skipNewlines rest)
        return (.define name body, rest)
    | none, (line, .word _) :: _ | none, (line, .redirect _ _) :: _ | none, (line, .here _ _) :: _ => do
      let (p, rest) ← parts last ⟨[], [], []⟩ ls
      return (.simple line p.assignments.reverse p.words.reverse p.redirects.reverse, rest)
    | _, ls => unexpected last "" ls

/-- Commands joined by `|`. -/
def pipeline (last : Nat) (inner : ListParser) : Nat → List Located → Except SyntaxError (Read Command)
  | 0, ls => unexpected last "" ls
  | fuel + 1, ls => do
    let (a, rest) ← single last inner (ls.length + 1) ls
    match rest with
    | (_, .pipe) :: rest => do
      let (b, rest) ← pipeline last inner fuel (skipNewlines rest)
      return (.pipe a b, rest)
    | rest => return (a, rest)

def negation (last : Nat) (inner : ListParser) (ls : List Located) : Except SyntaxError (Read Command) := do
  if front? ls = some "!" then
    let (c, rest) ← pipeline last inner (ls.length + 1) ls.tail
    return (.negated c, rest)
  else pipeline last inner (ls.length + 1) ls

/-- Goes on with `&&` and `||`, which are equally tight and join from the left. -/
def joined (last : Nat) (inner : ListParser) : Nat → Command → List Located → Except SyntaxError (Read Command)
  | 0, _, ls => unexpected last "" ls
  | fuel + 1, a, (_, .andThen) :: rest => do
    let (b, rest) ← negation last inner (skipNewlines rest)
    joined last inner fuel (.andThen a b) rest
  | fuel + 1, a, (_, .orElse) :: rest => do
    let (b, rest) ← negation last inner (skipNewlines rest)
    joined last inner fuel (.orElse a b) rest
  | _ + 1, a, rest => .ok (a, rest)

def conjunction (last : Nat) (inner : ListParser) (ls : List Located) : Except SyntaxError (Read Command) := do
  let (a, rest) ← negation last inner ls
  joined last inner (rest.length + 1) a rest

/-- Commands one after the other. -/
def after (a b : Command) : Command :=
  match a with
  | .nothing => b
  | a => .sequence a b

/-- Reads a list of commands inside another one, up to what ends it. -/
def items (last : Nat) (inner : ListParser) : Nat → Bool → Command → List Located → Except SyntaxError (Read Command)
  | 0, _, _, ls => unexpected last "" ls
  | fuel + 1, mayEnd, acc, ls => do
    let ls := skipNewlines ls
    if ls.isEmpty || (mayEnd && endsList ls) then return (acc, ls)
    let (c, rest) ← conjunction last inner ls
    match rest with
    | (_, .newline) :: rest | (_, .semicolon) :: rest => items last inner fuel true (after acc c) rest
    | (_, .background) :: rest => items last inner fuel true (after acc (.background c)) rest
    | rest => return (after acc c, rest)

/-- Reads lists of commands that are nested to the given depth. -/
def list (last : Nat) : Nat → ListParser
  | 0, _, ls => unexpected last "" ls
  | depth + 1, mayBeEmpty, ls => items last (list last depth) (ls.length + 1) mayBeEmpty .nothing ls

/-- Reads the commands of one line of a script. -/
def oneLine (last : Nat) (inner : ListParser) : Nat → Command → List Located → Except SyntaxError (Read Command)
  | 0, _, ls => unexpected last "" ls
  | _ + 1, acc, [] => .ok (acc, [])
  | _ + 1, acc, (_, .newline) :: rest => .ok (acc, rest)
  | fuel + 1, acc, ls => do
    let (c, rest) ← conjunction last inner ls
    match rest with
    | (_, .background) :: rest => oneLine last inner fuel (after acc (.background c)) rest
    | (_, .semicolon) :: rest => oneLine last inner fuel (after acc c) rest
    | (_, .newline) :: _ | [] => oneLine last inner fuel (after acc c) rest
    | rest => unexpected last "" rest

/-- Reads a script as far as it can be read. -/
def lines (last : Nat) : Nat → List Located → List Command
  | 0, _ => []
  | _ + 1, [] => []
  | fuel + 1, ls =>
    match oneLine last (list last (ls.length + 1)) (ls.length + 2) .nothing ls with
    | .ok (c, rest) => c :: lines last fuel rest
    | .error e => [.malformed e.line s!"Syntax error: {e.text}"]

/-- The commands of a script that begins on the given line, one for each line that is complete. -/
def ofText (line : Nat) (script : List Char) : List Command :=
  let ls := Lexeme.ofText line script
  lines (script.count '\n' + line) (ls.length + 1) ls

end Command

end TapeLang.Host.Shell
