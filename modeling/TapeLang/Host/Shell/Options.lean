/-!
# Options of the shell

Letters behind a hyphen turn options on, behind a plus sign off; `-o` does so by name.
-/

namespace TapeLang.Host.Shell

/-- The options that have names. -/
def optionNames : List (String × Char) :=
  [("errexit", 'e'), ("noglob", 'f'), ("ignoreeof", 'I'), ("interactive", 'i'), ("monitor", 'm'), ("noexec", 'n'),
    ("stdin", 's'), ("xtrace", 'x'), ("verbose", 'v'), ("vi", 'V'), ("emacs", 'E'), ("noclobber", 'C'),
    ("allexport", 'a'), ("notify", 'b'), ("nounset", 'u'), ("privileged", 'p')]

/-- What options were read. -/
structure Settings where
  options : List Char
  /-- Is the script given as an argument? -/
  inline : Bool

namespace Settings

def turn (s : Settings) (on : Bool) (c : Char) : Settings :=
  { s with options := if on then (if s.options.contains c then s.options else s.options ++ [c])
                      else s.options.filter (· != c) }

/-- Reads the letters of one argument.  On a command line there are some more of them. -/
def letters (commandLine on : Bool) : List Char → Settings → List String → Except String (Settings × List String)
  | [], s, rest => .ok (s, rest)
  | 'o' :: cs, s, rest =>
    match rest with
    | [] => letters commandLine on cs s rest
    | name :: rest =>
      match optionNames.lookup name with
      | some c => letters commandLine on cs (s.turn on c) rest
      | none => .error s!"Illegal option -o {name}"
  | c :: cs, s, rest =>
    if commandLine && c == 'c' then letters commandLine on cs { s with inline := true } rest
    else if commandLine && c == 'l' then letters commandLine on cs s rest
    else if optionNames.any fun o => o.2 == c then letters commandLine on cs (s.turn on c) rest
    else .error s!"Illegal option -{c}"

/-- Reads options in front of arguments.  Without any argument behind them there is nothing, unless `--` says that
there are none. -/
def read (commandLine : Bool) : Nat → Settings → List String → Except String (Settings × Option (List String))
  | 0, s, rest => .ok (s, some rest)
  | _ + 1, s, [] => .ok (s, none)
  | _ + 1, s, "--" :: rest => .ok (s, some rest)
  | fuel + 1, s, argument :: rest =>
    match argument.toList with
    | ['-'] => .ok (s, if commandLine || !rest.isEmpty then some rest else none)
    | '-' :: cs => do
      let (s, rest) ← letters commandLine true cs s rest
      read commandLine fuel s rest
    | '+' :: cs => do
      let (s, rest) ← letters commandLine false cs s rest
      read commandLine fuel s rest
    | _ => .ok (s, some (argument :: rest))

end Settings

end TapeLang.Host.Shell
