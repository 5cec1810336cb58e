import TapeLang.SourceError
import TapeLang.Token

/-!
# Scanning

`Scan.ofSource` goes through a text byte by byte.  It keeps the text without comments, merges it into tokens, and
pairs up the brackets: a stack holds the token indices of the `[` that wait for their `]`, and every `]` takes one off
and files the pair in a table.  A text is accepted if its brackets pair up and nest at most `maxNesting` deep.  The
other operations look up partners, and convert between token indices and offsets in the text.
-/

namespace TapeLang

/-- The deepest nesting of loops that is accepted. -/
def maxNesting : Nat := 256

/-- An accepted text: its bytes without comments, its tokens, and the pairs of brackets, each filed under the token
index of its `[`. -/
structure Scan where
  text : List UInt8
  tokens : List Token
  matching : List (Nat × Nat)
deriving DecidableEq, Repr

/-- What is known of a text behind some of its bytes. -/
structure Scanner where
  text : Array UInt8
  tokens : Array Token
  matching : List (Nat × Nat)
  /-- Token indices of the `[` that wait for their `]`, the innermost first. -/
  opened : List Nat
  opened_lt : ∀ i ∈ opened, i < tokens.size

namespace Scanner

def start : Scanner := ⟨#[], #[], [], [], nofun⟩

/-- The last token takes in one more symbol. -/
def grow (s : Scanner) (byte : UInt8) : Scanner :=
  { s with
    text := s.text.push byte
    tokens := s.tokens.modify (s.tokens.size - 1) fun last => { last with count := last.count + 1 }
    opened_lt := by simpa using s.opened_lt }

/-- A symbol begins a token. -/
def push (s : Scanner) (symbol : Symbol) (position : Nat) (byte : UInt8) : Scanner :=
  { s with
    text := s.text.push byte
    tokens := s.tokens.push ⟨symbol, 1, s.text.size, position⟩
    opened_lt := by
      intro i hi
      rw [Array.size_push]
      exact Nat.lt_succ_of_lt (s.opened_lt i hi) }

/-- A `[` waits for its partner. -/
def enter (s : Scanner) (position : Nat) (byte : UInt8) : Except SourceError Scanner :=
  if s.opened.length < maxNesting then
    .ok { s.push .opening position byte with
      opened := s.tokens.size :: s.opened
      opened_lt := by
        intro i hi
        rw [push, Array.size_push]
        rcases List.mem_cons.1 hi with rfl | hi
        · exact Nat.lt_succ_self _
        · exact Nat.lt_succ_of_lt (s.opened_lt i hi) }
  else .error (.nestedTooDeep position maxNesting)

/-- A `]` is the partner of the `[` that waits last. -/
def leave (s : Scanner) (position : Nat) (byte : UInt8) : Except SourceError Scanner :=
  match waiting : s.opened with
  | [] => .error (.strayClose position)
  | i :: outer =>
    .ok { s.push .closing position byte with
      matching := (i, s.tokens.size) :: s.matching
      opened := outer
      opened_lt := by
        intro j hj
        rw [push, Array.size_push]
        exact Nat.lt_succ_of_lt (s.opened_lt j (waiting ▸ List.mem_cons_of_mem i hj)) }

def step (s : Scanner) (position : Nat) (byte : UInt8) : Except SourceError Scanner :=
  match Symbol.ofByte? byte with
  | none => .ok s
  | some symbol =>
    if s.tokens.back?.any fun last => last.Absorbs symbol then .ok (s.grow byte)
    else
      match symbol with
      | .opening => s.enter position byte
      | .closing => s.leave position byte
      | _ => .ok (s.push symbol position byte)

/-- Goes through bytes of which the first stands at `position`. -/
def run (s : Scanner) (position : Nat) : List UInt8 → Except SourceError Scanner
  | [] => .ok s
  | byte :: rest =>
    match s.step position byte with
    | .ok s => s.run (position + 1) rest
    | .error e => .error e

/-- Behind the last byte nothing may wait. -/
def finish (s : Scanner) : Except SourceError Scan :=
  match waiting : s.opened with
  | [] => .ok ⟨s.text.toList, s.tokens.toList, s.matching⟩
  | i :: _ =>
    have inside : i < s.tokens.size := s.opened_lt i (by simp [waiting])
    .error (.unclosedLoop s.tokens[i].position)

end Scanner

/-- Looks for a key among ascending keys, from index `low` up to `high`, with the key in the middle of this stretch
first. -/
def bisect (keys : List Nat) (key low high : Nat) : Option Nat :=
  if low < high then
    match keys[low + (high - low) / 2]? with
    | none => none
    | some middle =>
      if middle < key then bisect keys key (low + (high - low) / 2 + 1) high
      else if key < middle then bisect keys key low (low + (high - low) / 2)
      else some (low + (high - low) / 2)
  else none
termination_by high - low

namespace Scan

def ofSource (source : List UInt8) : Except SourceError Scan :=
  (Scanner.start.run 0 source).bind Scanner.finish

/-- The `]` that belongs to the `[` at token index `i`. -/
def partner? (s : Scan) (i : Nat) : Option Nat := s.matching.lookup i

/-- All bracket pairs, ascending by the index of the `[`. -/
def pairs (s : Scan) : List (Nat × Nat) :=
  (List.range s.tokens.length).filterMap fun i => (s.partner? i).map (i, ·)

/-- Where a token starts in the text; every index past the last token stands for the end of the text. -/
def offsetOf (s : Scan) (i : Nat) : Nat :=
  match s.tokens[i]? with
  | some t => t.start
  | none => s.text.length

/-- The token that starts at an offset of the text, looked for by halving the tokens; the end of the text is one past
the last token. -/
def tokenAt? (s : Scan) (offset : Nat) : Option Nat :=
  if offset = s.text.length then some s.tokens.length
  else bisect (s.tokens.map Token.start) offset 0 s.tokens.length

/-- The text of the tokens from `i` up to `j`, or `none` if `j` stands before `i`. -/
def slice? (s : Scan) (i j : Nat) : Option (List UInt8) :=
  if s.offsetOf i ≤ s.offsetOf j then
    some ((s.text.take (s.offsetOf j)).drop (s.offsetOf i))
  else none

end Scan

end TapeLang
