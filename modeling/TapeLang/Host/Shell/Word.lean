/-!
# Words of the shell

A word is a list of pieces: characters, and expansions that are replaced when a command runs.  What an expansion holds
is kept as text and read when it is needed.
-/

namespace TapeLang.Host.Shell

/-- What is done to the value of a parameter. -/
inductive Operation
  | length
  /-- Another text if the parameter is not set; with `orEmpty` also if it is empty. -/
  | default (orEmpty : Bool)
  | assign (orEmpty : Bool)
  | demand (orEmpty : Bool)
  /-- Another text if the parameter is set. -/
  | alternative (orEmpty : Bool)
  /-- Takes away what fits a pattern at the start or at the end. -/
  | cut (atEnd longest : Bool)
  | malformed
deriving DecidableEq, Repr

inductive Piece
  | text (c : Char) (quoted : Bool)
  | parameter (name : String) (operation : Option (Operation × List Char)) (quoted : Bool)
  /-- The output of a script, whose lines are counted on from where it stands, or anew. -/
  | output (script : List Char) (anew quoted : Bool)
  | arithmetic (expression : List Char) (quoted : Bool)
  /-- Quotes with nothing between them, which still make a word. -/
  | empty
deriving DecidableEq, Repr

abbrev Word := List Piece

def openBrace : Char := '\x7b'

def closeBrace : Char := '\x7d'

def backquote : Char := '\x60'

def isNameStart (c : Char) : Bool := c.isAlpha || c == '_'

def isNameChar (c : Char) : Bool := c.isAlphanum || c == '_'

def isName (text : String) : Bool :=
  match text.toList with
  | c :: cs => isNameStart c && cs.all isNameChar
  | [] => false

/-- What a closing bracket is waited for in. -/
inductive Bracket
  | round
  | brace
  | single
  | double
deriving DecidableEq, Repr

/-- What stands before the bracket that closes the outermost open one, and what stands after it.  Quotes and brackets
inside are skipped.  There is nothing if the bracket is missing. -/
def splitAtClose : List Bracket → List Char → Option (List Char × List Char)
  | [], rest => some ([], rest)
  | _ :: _, [] => none
  | b :: outer, c :: rest =>
    let keep (r : Option (List Char × List Char)) : Option (List Char × List Char) :=
      r.map fun p => (c :: p.1, p.2)
    let close : Option (List Char × List Char) :=
      if outer.isEmpty then some ([], rest) else keep (splitAtClose outer rest)
    match b with
    | .single => if c = '\'' then close else keep (splitAtClose (b :: outer) rest)
    | .double =>
      if c = '"' then close
      else if c = '\\' then
        match rest with
        | d :: rest => (splitAtClose (b :: outer) rest).map fun p => (c :: d :: p.1, p.2)
        | [] => none
      else if c = '$' then
        match rest with
        | '(' :: rest => (splitAtClose (.round :: b :: outer) rest).map fun p => (c :: '(' :: p.1, p.2)
        | '\x7b' :: rest => (splitAtClose (.brace :: b :: outer) rest).map fun p => (c :: openBrace :: p.1, p.2)
        | rest => keep (splitAtClose (b :: outer) rest)
      else keep (splitAtClose (b :: outer) rest)
    | .round | .brace =>
      if c = '\'' then keep (splitAtClose (.single :: b :: outer) rest)
      else if c = '"' then keep (splitAtClose (.double :: b :: outer) rest)
      else if c = '\\' then
        match rest with
        | d :: rest => (splitAtClose (b :: outer) rest).map fun p => (c :: d :: p.1, p.2)
        | [] => none
      else if c = '(' ∧ b = .round then keep (splitAtClose (.round :: b :: outer) rest)
      else if c = ')' ∧ b = .round then close
      else if c = closeBrace ∧ b = .brace then close
      else if c = '$' then
        match rest with
        | '(' :: rest => (splitAtClose (.round :: b :: outer) rest).map fun p => (c :: '(' :: p.1, p.2)
        | '\x7b' :: rest => (splitAtClose (.brace :: b :: outer) rest).map fun p => (c :: openBrace :: p.1, p.2)
        | rest => keep (splitAtClose (b :: outer) rest)
      else keep (splitAtClose (b :: outer) rest)

/-- The text between backquotes, where a backslash protects only a few characters, and what stands after it. -/
def splitAtBackquote : List Char → Option (List Char × List Char)
  | [] => none
  | '\\' :: c :: rest =>
    (splitAtBackquote rest).map fun p =>
      if c = backquote ∨ c = '\\' ∨ c = '$' then (c :: p.1, p.2) else ('\\' :: c :: p.1, p.2)
  | c :: rest => if c = backquote then some ([], rest) else (splitAtBackquote rest).map fun p => (c :: p.1, p.2)

def isSpecial (c : Char) : Bool := "@*#?$!-".toList.contains c

/-- The name of a parameter in braces, and what comes after it. -/
def takeName (cs : List Char) : String × List Char :=
  match cs with
  | c :: rest =>
    if isNameStart c then (String.ofList (cs.takeWhile isNameChar), cs.dropWhile isNameChar)
    else if c.isDigit then (String.ofList (cs.takeWhile Char.isDigit), cs.dropWhile Char.isDigit)
    else if isSpecial c then (String.singleton c, rest)
    else ("", cs)
  | [] => ("", [])

/-- What an operator asks for, and its operand. -/
def operationOf : List Char → Option (Operation × List Char)
  | [] => none
  | ':' :: '-' :: rest => some (.default true, rest)
  | '-' :: rest => some (.default false, rest)
  | ':' :: '=' :: rest => some (.assign true, rest)
  | '=' :: rest => some (.assign false, rest)
  | ':' :: '?' :: rest => some (.demand true, rest)
  | '?' :: rest => some (.demand false, rest)
  | ':' :: '+' :: rest => some (.alternative true, rest)
  | '+' :: rest => some (.alternative false, rest)
  | '%' :: '%' :: rest => some (.cut true true, rest)
  | '%' :: rest => some (.cut true false, rest)
  | '#' :: '#' :: rest => some (.cut false true, rest)
  | '#' :: rest => some (.cut false false, rest)
  | rest => some (.malformed, rest)

/-- What stands between braces. -/
def bracedParameter (inside : List Char) (quoted : Bool) : Piece :=
  let plain : Piece :=
    let (name, rest) := takeName inside
    if name.isEmpty then .parameter "" (some (.malformed, inside)) quoted
    else .parameter name (operationOf rest) quoted
  match inside with
  | '#' :: c :: rest =>
    match takeName (c :: rest) with
    | (name, []) => if name.isEmpty then plain else .parameter name (some (.length, [])) quoted
    | _ => plain
  | _ => plain

/-- What a `$` stands for, given what follows it; nothing if something is not closed. -/
def expansion (quoted : Bool) : List Char → Option (Piece × List Char)
  | '(' :: '(' :: rest =>
    match splitAtClose [.round] rest with
    | some (inside, ')' :: rest) => some (.arithmetic inside quoted, rest)
    | _ => (splitAtClose [.round] ('(' :: rest)).map fun p => (.output p.1 false quoted, p.2)
  | '(' :: rest => (splitAtClose [.round] rest).map fun p => (.output p.1 false quoted, p.2)
  | '\x7b' :: rest => (splitAtClose [.brace] rest).map fun p => (bracedParameter p.1 quoted, p.2)
  | c :: rest =>
    if c.isDigit || isSpecial c then some (.parameter (String.singleton c) none quoted, rest)
    else if isNameStart c then
      some (.parameter (String.ofList ((c :: rest).takeWhile isNameChar)) none quoted,
        (c :: rest).dropWhile isNameChar)
    else some (.text '$' quoted, c :: rest)
  | [] => some (.text '$' quoted, [])

/-- Quoted pieces up to a stop, or up to the end of the text, the latest first, and what comes after.  A backslash
protects what would be special here. -/
def quotedPieces (stop : Option Char) : Nat → List Char → Word → Option (Word × List Char)
  | 0, _, _ => none
  | _ + 1, [], acc => if stop.isNone then some (acc, []) else none
  | fuel + 1, c :: rest, acc =>
    if some c = stop then some (acc, rest)
    else if c = '$' then
      match expansion true rest with
      | some (piece, rest) => quotedPieces stop fuel rest (piece :: acc)
      | none => none
    else if c = backquote then
      match splitAtBackquote rest with
      | some (script, rest) => quotedPieces stop fuel rest (.output script true true :: acc)
      | none => none
    else if c = '\\' then
      match rest with
      | d :: rest =>
        if d = '\n' then quotedPieces stop fuel rest acc
        else if d = '$' ∨ d = '\\' ∨ d = backquote ∨ some d = stop then
          quotedPieces stop fuel rest (.text d true :: acc)
        else quotedPieces stop fuel rest (.text d true :: .text '\\' true :: acc)
      | [] => some (.text '\\' true :: acc, [])
    else quotedPieces stop fuel rest (.text c true :: acc)

/-- A text in which only expansions are special. -/
def hereText (cs : List Char) : Word := ((quotedPieces none (cs.length + 1) cs []).map fun p => p.1.reverse).getD []

/-- Reads pieces of a word, the latest first, as long as `goesOn` holds of unquoted characters. -/
def wordPieces (goesOn : Char → Bool) : Nat → List Char → Word → Option (Word × List Char)
  | 0, _, _ => none
  | _ + 1, [], acc => some (acc, [])
  | fuel + 1, c :: rest, acc =>
    if c = '\'' then
      match splitAtClose [.single] rest with
      | some ([], rest) => wordPieces goesOn fuel rest (.empty :: acc)
      | some (inside, rest) =>
        wordPieces goesOn fuel rest ((inside.map fun d => Piece.text d true).reverse ++ acc)
      | none => none
    else if c = '"' then
      match quotedPieces (some '"') (rest.length + 1) rest [] with
      | some ([], rest) => wordPieces goesOn fuel rest (.empty :: acc)
      | some (pieces, rest) => wordPieces goesOn fuel rest (pieces ++ acc)
      | none => none
    else if c = '\\' then
      match rest with
      | '\n' :: rest => wordPieces goesOn fuel rest acc
      | d :: rest => wordPieces goesOn fuel rest (.text d true :: acc)
      | [] => some (.text '\\' true :: acc, [])
    else if c = '$' then
      match expansion false rest with
      | some (piece, rest) => wordPieces goesOn fuel rest (piece :: acc)
      | none => none
    else if c = backquote then
      match splitAtBackquote rest with
      | some (script, rest) => wordPieces goesOn fuel rest (.output script true false :: acc)
      | none => none
    else if goesOn c then wordPieces goesOn fuel rest (.text c false :: acc)
    else some (acc, c :: rest)

/-- The word that a whole text is, blanks included. -/
def Word.ofText (cs : List Char) : Word :=
  ((wordPieces (fun _ => true) (cs.length + 1) cs []).map fun p => p.1.reverse).getD []

/-- The text of a word without quotes and expansions. -/
def Word.literal? : Word → Option String
  | [] => some ""
  | .text c false :: rest => (Word.literal? rest).map (String.singleton c ++ ·)
  | _ => none

/-- The text of a word in which nothing is expanded, quoted or not. -/
def Word.bareText : Word → String
  | [] => ""
  | .text c _ :: rest => String.singleton c ++ Word.bareText rest
  | _ :: rest => Word.bareText rest

def Piece.isQuoted : Piece → Bool
  | text _ quoted | parameter _ _ quoted | output _ _ quoted | arithmetic _ quoted => quoted
  | empty => true

/-- Is any part of the word quoted? -/
def Word.isQuoted (w : Word) : Bool := w.any Piece.isQuoted

/-- The name and the value of an assignment. -/
def Word.assignment? (w : Word) : Option (String × Word) :=
  let isNamePiece (p : Piece) : Bool :=
    match p with
    | .text c false => isNameChar c
    | _ => false
  let name := Word.bareText (w.takeWhile isNamePiece)
  match w.dropWhile isNamePiece with
  | .text '=' false :: value => if isName name then some (name, value) else none
  | _ => none

end TapeLang.Host.Shell
