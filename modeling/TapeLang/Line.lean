/-!
# Indented lines

Text made of lines that are indented by four blanks for each level they stand at.
-/

namespace TapeLang

structure Line where
  depth : Nat
  text : String
deriving DecidableEq, Repr

namespace Line

/-- The blanks in front of a line at the given depth. -/
def indentation (depth : Nat) : String := String.ofList (List.replicate (4 * depth) ' ')

def render (l : Line) : String := indentation l.depth ++ l.text ++ "\n"

def renderAll (ls : List Line) : String := String.join (ls.map render)

theorem renderAll_cons (l : Line) (rest : List Line) : renderAll (l :: rest) = l.render ++ renderAll rest := by
  rw [renderAll, List.map_cons, String.join_cons, ← renderAll]

end Line

end TapeLang
