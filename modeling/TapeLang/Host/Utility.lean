import TapeLang.Host.Utility.Editor
import TapeLang.Host.Utility.Entries

/-!
# Utilities

The small programs that scripts are made of, by their names.
-/

namespace TapeLang.Host.Utility

def echo (operands : List String) : Action := do
  out (Format.plainEcho operands)
  return 0

def printf (operands : List String) : Action := do
  match operands with
  | [] => misused "missing operand"
  | format :: operands =>
    let p := Format.printf format operands
    out p.output
    for problem in p.problems do complain problem
    match p.operands with
    | extra :: _ => complain s!"warning: ignoring excess arguments, starting with '{extra}'"
    | [] => pure ()
    return if p.problems.isEmpty then 0 else 1

def removeDirectories (a : Arguments) : Action :=
  needOperand "operand" a.operands <| forEach a.operands fun path =>
    changing (fun files here => files.removeDirectory here path) fun e => s!"failed to remove '{path}': {e.text}"

def directoryNames (operands : List String) : Action :=
  needOperand "operand" operands do
    say (String.join (operands.map fun o => dirname o ++ "\n"))
    return 0

def baseName (operands : List String) : Action :=
  match operands with
  | [] => misused "missing operand"
  | _ :: _ :: extra :: _ => misused s!"extra operand '{extra}'"
  | path :: ending => do
    say (withoutEnding (basename path) (ending.headD "") ++ "\n")
    return 0

def workingDirectoryName (_ : List String) : Action := do
  say (pathText (← get).here ++ "\n")
  return 0

/-- Each run of equal lines once. -/
def unique (a : Arguments) : Action := do
  let (status, lines) ← gather a.operands
  out (unlines (dropRepeats lines))
  return status

/-- The utilities by their names. -/
def all : List (String × (List String → Action)) :=
  [("true", fun _ => return 0),
    ("false", fun _ => return 1),
    ("echo", echo),
    ("printf", printf),
    ("cat", fun os => withArguments "AbeEnstTuv" os cat),
    ("cp", fun os => withArguments "afpPrRTuv" os fun a =>
      transfer (copy (a.has 'r' || a.has 'R' || a.has 'a')) a.operands),
    ("mv", fun os => withArguments "finTuv" os fun a => transfer move a.operands),
    ("ln", fun os => withArguments "sfnrTvP" os link),
    ("rm", fun os => withArguments "dfirRvI" os remove),
    ("rmdir", fun os => withArguments "pv" os removeDirectories),
    ("mkdir", fun os => withArguments "pv" os mkdir),
    ("touch", fun os => withArguments "acmh" os fun a => touch a.operands),
    ("chmod", chmod),
    ("dirname", directoryNames),
    ("basename", baseName),
    ("pwd", workingDirectoryName),
    ("ls", list),
    ("test", test),
    ("[", bracket),
    ("sleep", fun os => withArguments "" os fun a => needOperand "operand" a.operands (return 0)),
    ("head", extract true),
    ("tail", extract false),
    ("wc", fun os => withArguments "clmw" os tally),
    ("tee", fun os => withArguments "ai" os tee),
    ("seq", seq),
    ("tr", fun os => withArguments "cCdst" os transliterate),
    ("sort", fun os => withArguments "nru" os sort),
    ("uniq", fun os => withArguments "" os unique),
    ("cut", cut),
    ("rev", mapLines fun l => String.ofList l.toList.reverse),
    ("expr", expr),
    ("grep", fun os => withArguments "ciEFhlnqsvx" os grep),
    ("sed", sed)]

/-- Runs a utility, if there is one of this name. -/
def run? (name : String) (operands : List String) : Option Action := (all.lookup name).map fun act => act operands

/-- The names of all utilities. -/
def names : List String := all.map Prod.fst

end TapeLang.Host.Utility
