import TapeLang.Host.Files

/-!
# Patterns

Patterns with `*`, `?` and sets in brackets, for names of files and for texts.  A quoted character stands for itself.
-/

namespace TapeLang.Host

/-- Characters, each with a mark that says whether it was quoted. -/
abbrev Marked := List (Char × Bool)

namespace Marked

def ofText (quoted : Bool) (text : String) : Marked := text.toList.map fun c => (c, quoted)

def text (m : Marked) : String := String.ofList (m.map Prod.fst)

end Marked

inductive Glob
  | literal (c : Char)
  | one
  | many
  | set (negated : Bool) (ranges : List (Char × Char)) (classes : List String)
deriving DecidableEq, Repr

namespace Glob

def inClass (c : Char) : String → Bool
  | "alpha" => c.isAlpha
  | "digit" => c.isDigit
  | "alnum" => c.isAlphanum
  | "upper" => c.isUpper
  | "lower" => c.isLower
  | "space" => c == ' ' || (9 ≤ c.toNat && c.toNat ≤ 13)
  | "blank" => c == ' ' || c == '\t'
  | "punct" => 32 < c.toNat && c.toNat < 127 && !c.isAlphanum
  | "xdigit" => c.isDigit || ('a' ≤ c && c ≤ 'f') || ('A' ≤ c && c ≤ 'F')
  | _ => false

/-- Reads the members of a set up to its closing bracket, which may also stand first as a member. -/
def members : Nat → Bool → List (Char × Char) → List String → Marked →
    Option (List (Char × Char) × List String × Marked)
  | 0, _, _, _, _ => none
  | fuel + 1, first, ranges, classes, m =>
    match m with
    | [] => none
    | (']', false) :: rest =>
      if first then members fuel false ((']', ']') :: ranges) classes rest else some (ranges, classes, rest)
    | ('[', false) :: (':', _) :: rest =>
      let name := String.ofList ((rest.takeWhile fun c => c.1 != ':').map Prod.fst)
      members fuel false ranges (name :: classes) ((rest.dropWhile fun c => c.1 != ':').drop 2)
    | (a, _) :: ('-', false) :: (b, q) :: rest =>
      if b == ']' && !q then members fuel false ((a, a) :: ranges) classes (('-', false) :: (b, q) :: rest)
      else members fuel false ((a, b) :: ranges) classes rest
    | (a, _) :: rest => members fuel false ((a, a) :: ranges) classes rest

def read : Nat → Marked → List Glob
  | 0, _ | _, [] => []
  | fuel + 1, ('*', false) :: rest => many :: read fuel rest
  | fuel + 1, ('?', false) :: rest => one :: read fuel rest
  | fuel + 1, ('[', false) :: rest =>
    let (negated, inside) : Bool × Marked :=
      match rest with
      | ('!', false) :: inside => (true, inside)
      | inside => (false, inside)
    match members (inside.length + 1) true [] [] inside with
    | some (ranges, classes, rest) => set negated ranges classes :: read fuel rest
    | none => literal '[' :: read fuel rest
  | fuel + 1, (c, _) :: rest => literal c :: read fuel rest

def ofMarked (m : Marked) : List Glob := read (m.length + 1) m

def allows : Glob → Char → Bool
  | literal d, c => c == d
  | one, _ | many, _ => true
  | set negated ranges classes, c =>
    (ranges.any (fun r => r.1 ≤ c && c ≤ r.2) || classes.any (inClass c)) != negated

/-- Does the pattern match the whole text? -/
def fits : List Glob → List Char → Bool
  | [], cs => cs.isEmpty
  | many :: rest, cs => (List.range (cs.length + 1)).any fun n => fits rest (cs.drop n)
  | g :: rest, c :: cs => g.allows c && fits rest cs
  | _ :: _, [] => false

/-- Is there anything in the pattern that does not stand for itself? -/
def isProper (m : Marked) : Bool := m.any fun c => !c.2 && (c.1 == '*' || c.1 == '?' || c.1 == '[')

/-- The parts of a pattern between slashes. -/
def parts : Marked → List Marked
  | [] => [[]]
  | c :: rest =>
    match c.1, parts rest with
    | '/', ps => [] :: ps
    | _, p :: ps => (c :: p) :: ps
    | _, [] => [[c]]

/-- The names in a directory that fit a pattern, in ascending order.  A dot in front has to be written. -/
def namesIn (fs : Files) (here : Path) (directory : String) (m : Marked) : List String :=
  match fs.node? here (if directory.isEmpty then "." else directory) with
  | some n =>
    let hidden := (m.head?.map Prod.fst) == some '.'
    let names := (n.children.map Prod.fst).filter fun name =>
      fits (ofMarked m) name.toList && (hidden || !name.startsWith ".")
    names.mergeSort fun a b => decide (a ≤ b)
  | none => []

/-- The paths that fit the given parts, continued from a start. -/
def pathsFrom (fs : Files) (here : Path) (start : String) : List Marked → List String
  | [] => [start]
  | [last] =>
    if isProper last then (namesIn fs here start last).map (start ++ ·)
    else
      let path := start ++ last.text
      if (fs.node? here path).isSome then [path] else []
  | part :: rest =>
    if isProper part then
      (namesIn fs here start part).flatMap fun name => pathsFrom fs here (start ++ name ++ "/") rest
    else pathsFrom fs here (start ++ part.text ++ "/") rest

/-- The paths that fit a pattern, or the pattern as it stands if there are none. -/
def expand (fs : Files) (here : Path) (m : Marked) : List String :=
  if isProper m then
    match pathsFrom fs here "" (parts m) with
    | [] => [m.text]
    | paths => paths
  else [m.text]

/-- The lengths of the beginnings of a text that fit, the shortest first. -/
def beginnings (m : Marked) (cs : List Char) : List Nat :=
  (List.range (cs.length + 1)).filter fun n => fits (ofMarked m) (cs.take n)

/-- Where the ends of a text that fit begin, the longest end first. -/
def endings (m : Marked) (cs : List Char) : List Nat :=
  (List.range (cs.length + 1)).filter fun n => fits (ofMarked m) (cs.drop n)

end Glob

end TapeLang.Host
