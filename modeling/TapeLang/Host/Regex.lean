import TapeLang.Host.Glob

/-!
# Regular expressions

Characters, `.`, sets, repetition by `*`, groups that can be referred to, the two anchors, and alternatives.  Matching
takes as much as it can and gives back what it must.
-/

namespace TapeLang.Host

inductive Regex
  | one (g : Glob)
  | any
  | repeated (r : Regex)
  | optional (r : Regex)
  | start
  | stop
  /-- Marks the beginning or the end of a group. -/
  | mark (closing : Bool) (group : Nat)
  | back (group : Nat)
deriving Repr

namespace Regex

/-- Adds a repetition to the latest item. -/
def repeatLast (wrap : Regex → List Regex) : List Regex → List Regex
  | r :: acc => wrap r ++ acc
  | [] => []

/-- Reads an expression; `extended` says whether groups are written without backslashes.  The items come out latest
first. -/
def read (extended : Bool) : Nat → Nat → List Nat → List Char → List Regex → List Regex
  | 0, _, _, _, acc | _, _, _, [], acc => acc
  | fuel + 1, groups, opened, c :: rest, acc =>
    let go (rest : List Char) (acc : List Regex) : List Regex := read extended fuel groups opened rest acc
    let openGroup (rest : List Char) : List Regex :=
      read extended fuel (groups + 1) ((groups + 1) :: opened) rest (mark false (groups + 1) :: acc)
    let closeGroup (rest : List Char) : List Regex :=
      read extended fuel groups opened.tail rest (mark true (opened.headD 0) :: acc)
    match c, rest with
    | '\\', '(' :: more => if extended then go more (one (.literal '(') :: acc) else openGroup more
    | '\\', ')' :: more => if extended then go more (one (.literal ')') :: acc) else closeGroup more
    | '\\', 'n' :: more => go more (one (.literal '\n') :: acc)
    | '\\', 't' :: more => go more (one (.literal '\t') :: acc)
    | '\\', d :: more =>
      if d.isDigit && d != '0' then go more (back (d.toNat - '0'.toNat) :: acc)
      else if d == '+' && !extended then go more (repeatLast (fun r => [repeated r, r]) acc)
      else if d == '?' && !extended then go more (repeatLast (fun r => [optional r]) acc)
      else go more (one (.literal d) :: acc)
    | '(', _ => if extended then openGroup rest else go rest (one (.literal '(') :: acc)
    | ')', _ => if extended then closeGroup rest else go rest (one (.literal ')') :: acc)
    | '.', _ => go rest (any :: acc)
    | '*', _ => if acc.isEmpty then go rest [one (.literal '*')] else go rest (repeatLast (fun r => [repeated r]) acc)
    | '+', _ =>
      if extended && !acc.isEmpty then go rest (repeatLast (fun r => [repeated r, r]) acc)
      else go rest (one (.literal '+') :: acc)
    | '?', _ =>
      if extended && !acc.isEmpty then go rest (repeatLast (fun r => [optional r]) acc)
      else go rest (one (.literal '?') :: acc)
    | '^', _ => if acc.isEmpty then go rest [start] else go rest (one (.literal '^') :: acc)
    | '$', [] => go [] (stop :: acc)
    | '[', _ =>
      let (negated, inside) : Bool × List Char :=
        match rest with
        | '^' :: inside => (true, inside)
        | inside => (false, inside)
      match Glob.members (inside.length + 1) true [] [] (inside.map fun c => (c, false)) with
      | some (ranges, classes, rest) => go (rest.map Prod.fst) (one (.set negated ranges classes) :: acc)
      | none => go rest (one (.literal '[') :: acc)
    | _, _ => go rest (one (.literal c) :: acc)

/-- Splits an expression at the bars between its alternatives. -/
def alternatives (extended : Bool) : List Char → List (List Char)
  | [] => [[]]
  | '\\' :: c :: rest =>
    if c == '|' && !extended then [] :: alternatives extended rest
    else
      match alternatives extended rest with
      | a :: as => ('\\' :: c :: a) :: as
      | [] => [['\\', c]]
  | c :: rest =>
    if c == '|' && extended then [] :: alternatives extended rest
    else
      match alternatives extended rest with
      | a :: as => (c :: a) :: as
      | [] => [[c]]

/-- The alternatives of an expression, each as a list of items. -/
def ofText (extended : Bool) (text : String) : List (List Regex) :=
  (alternatives extended text.toList).map fun cs => (read extended (cs.length + 1) 0 [] cs []).reverse

/-- Items that stand for a fixed text. -/
def ofFixed (text : String) : List (List Regex) := [text.toList.map fun c => one (.literal c)]

/-- Where groups begin and end, the latest first. -/
abbrev Groups := List (Nat × Nat × Option Nat)

def Groups.text (gs : Groups) (whole : List Char) (group : Nat) : List Char :=
  match gs.find? fun g => g.1 == group && g.2.2.isSome with
  | some (_, a, some b) => (whole.take b).drop a
  | _ => []

/-- Matches items from a position of a text: where the match ends, and the groups. -/
def run (whole : List Char) : Nat → List Regex → Nat → Groups → Option (Nat × Groups)
  | _, [], at_, gs => some (at_, gs)
  | 0, _ :: _, _, _ => none
  | fuel + 1, r :: rest, at_, gs =>
    match r with
    | start => if at_ = 0 then run whole fuel rest at_ gs else none
    | stop => if at_ = whole.length then run whole fuel rest at_ gs else none
    | mark false group => run whole fuel rest at_ ((group, at_, none) :: gs)
    | mark true group =>
      let from_ := ((gs.find? fun g => g.1 == group).map fun g => g.2.1).getD at_
      run whole fuel rest at_ ((group, from_, some at_) :: gs)
    | back group =>
      let text := gs.text whole group
      if text.isPrefixOf (whole.drop at_) then run whole fuel rest (at_ + text.length) gs else none
    | one g =>
      match whole[at_]? with
      | some c => if g.allows c then run whole fuel rest (at_ + 1) gs else none
      | none => none
    | any => if at_ < whole.length then run whole fuel rest (at_ + 1) gs else none
    | optional r =>
      match run whole fuel (r :: rest) at_ gs with
      | some found => some found
      | none => run whole fuel rest at_ gs
    | repeated r =>
      let further :=
        match run whole fuel [r] at_ gs with
        | some (next, gs) => if next > at_ then run whole fuel (repeated r :: rest) next gs else none
        | none => none
      match further with
      | some found => some found
      | none => run whole fuel rest at_ gs

/-- The longer one of two matches from the same position. -/
def longer (a b : Option (Nat × Groups)) : Option (Nat × Groups) :=
  match a, b with
  | some x, some y => if y.1 > x.1 then some y else some x
  | some x, none => some x
  | none, b => b

/-- The first match at or after a position, and of those the longest: its start, its end and its groups. -/
def find? (alternatives : List (List Regex)) (whole : List Char) (at_ : Nat) : Option (Nat × Nat × Groups) :=
  (List.range (whole.length + 1 - at_)).findSome? fun n =>
    let found := alternatives.map fun items => run whole (2 * (whole.length + items.length) + 2) items (at_ + n) []
    (found.foldl longer none).map fun found => (at_ + n, found.1, found.2)

end Regex

end TapeLang.Host
