import TapeLang.Host.Shell.Word

/-!
# Lexemes of the shell

A script as a list of words and operators with the lines they stand on.  The text that a `<<` announces is taken out
of the following lines and put where it was announced.
-/

namespace TapeLang.Host.Shell

inductive RedirectMode
  | input
  | output
  | append
  /-- To or from where another stream goes. -/
  | duplicate
  /-- From a text in the script. -/
  | here
deriving DecidableEq, Repr

/-- Where a stream of a command comes from or goes to. -/
structure Redirect where
  stream : Nat
  mode : RedirectMode
  target : Word
deriving DecidableEq, Repr

inductive Lexeme
  | word (w : Word)
  | redirect (stream : Nat) (mode : RedirectMode)
  | here (stream : Nat) (text : Word)
  | newline
  | semicolon
  | endCase
  | background
  | andThen
  | orElse
  | pipe
  | openRound
  | closeRound
  /-- The script cannot be read from here on. -/
  | broken (text : String)
deriving DecidableEq, Repr

/-- A lexeme and its line. -/
abbrev Located := Nat × Lexeme

namespace Lexeme

/-- Can the character go on a word? -/
def inWord (c : Char) : Bool := !" \t\n;&|()<>".toList.contains c

/-- The text up to a line that is the delimiter, the lines it takes, and what comes after that line. -/
def takeHere (delimiter : List Char) (stripTabs : Bool) : Nat → List Char → List Char × Nat × List Char
  | 0, cs => ([], 0, cs)
  | _ + 1, [] => ([], 0, [])
  | fuel + 1, cs =>
    let strip (line : List Char) : List Char := if stripTabs then line.dropWhile (· == '\t') else line
    let line := strip (cs.takeWhile (· != '\n'))
    let rest := (cs.dropWhile (· != '\n')).drop 1
    if line = delimiter then ([], 1, rest)
    else
      let (body, lines, after) := takeHere delimiter stripTabs fuel rest
      (line ++ '\n' :: body, lines + 1, after)

/-- Reads lexemes, the latest first.  `skipped` counts lines that were taken out ahead. -/
def read : Nat → List Char → Nat → Nat → List Located → List Located
  | 0, _, _, _, acc => acc
  | _ + 1, [], _, _, acc => acc
  | fuel + 1, c :: rest, line, skipped, acc =>
    let emit (l : Lexeme) (rest : List Char) : List Located := read fuel rest line skipped ((line, l) :: acc)
    let unterminated : List Located := (line + rest.count '\n', .broken "Unterminated quoted string") :: acc
    let here (stream : Nat) (stripTabs : Bool) (rest : List Char) : List Located :=
      let rest := rest.dropWhile fun c => c == ' ' || c == '\t'
      match wordPieces inWord (rest.length + 1) rest [] with
      | none => unterminated
      -- Without a word that announces it there is no text.
      | some ([], rest) => emit (.redirect stream .input) rest
      | some (pieces, rest) =>
        let delimiter := Word.bareText pieces.reverse
        let quoted := Word.isQuoted pieces
        let below := (rest.dropWhile (· != '\n')).drop 1
        let (body, lines, after) := takeHere delimiter.toList stripTabs (below.length + 1) below
        let text := if quoted then body.map fun c => Piece.text c true else hereText body
        let remaining := rest.takeWhile (· != '\n') ++ '\n' :: after
        read fuel remaining line (skipped + lines) ((line, .here stream text) :: acc)
    let redirection (stream : Option Nat) (c : Char) (rest : List Char) : List Located :=
      match c, rest with
      | '<', '<' :: '-' :: rest => here (stream.getD 0) true rest
      | '<', '<' :: rest => here (stream.getD 0) false rest
      | '<', '&' :: rest => emit (.redirect (stream.getD 0) .duplicate) rest
      | '<', _ => emit (.redirect (stream.getD 0) .input) rest
      | _, '>' :: rest => emit (.redirect (stream.getD 1) .append) rest
      | _, '&' :: rest => emit (.redirect (stream.getD 1) .duplicate) rest
      | _, '|' :: rest => emit (.redirect (stream.getD 1) .output) rest
      | _, _ => emit (.redirect (stream.getD 1) .output) rest
    match c, rest with
    | ' ', _ | '\t', _ => read fuel rest line skipped acc
    | '\n', _ =>
      let next := line + 1 + skipped
      read fuel rest next 0 ((next, .newline) :: acc)
    | '\\', '\n' :: rest => read fuel rest (line + 1) skipped acc
    | '#', _ => read fuel (rest.dropWhile (· != '\n')) line skipped acc
    | ';', ';' :: rest => emit .endCase rest
    | ';', _ => emit .semicolon rest
    | '&', '&' :: rest => emit .andThen rest
    | '&', _ => emit .background rest
    | '|', '|' :: rest => emit .orElse rest
    | '|', _ => emit .pipe rest
    | '(', _ => emit .openRound rest
    | ')', _ => emit .closeRound rest
    | '<', _ | '>', _ => redirection none c rest
    | _, _ =>
      match wordPieces inWord (rest.length + 2) (c :: rest) [] with
      | none => unterminated
      | some (pieces, after) =>
        let word := pieces.reverse
        let lines := ((c :: rest).take (rest.length + 1 - after.length)).count '\n'
        match after, (Word.literal? word).filter fun t => t.length == 1 && t.all Char.isDigit with
        | d :: more, some digits =>
          if d = '<' ∨ d = '>' then redirection (some (digits.toList.foldl (fun _ c => c.toNat - '0'.toNat) 0)) d more
          else read fuel after (line + lines) skipped ((line, .word word) :: acc)
        | _, _ => read fuel after (line + lines) skipped ((line, .word word) :: acc)

/-- The lexemes of a script that begins on the given line. -/
def ofText (line : Nat) (script : List Char) : List Located := (read (script.length + 1) script line 0 []).reverse

end Lexeme

end TapeLang.Host.Shell
