import TapeLang.C.Syntax
import TapeLang.Line

/-!
# The text of a file

One statement a line, a block between braces with its body indented.  The flush at the end of `main` stands at the
left margin.
-/

namespace TapeLang

/-- Puts a text in front of the first line. -/
def Line.label (text : String) : List Line → List Line
  | [] => []
  | l :: rest => ⟨l.depth, text ++ l.text⟩ :: rest

namespace C

def Ty.text : Ty → String
  | uint8 => "uint8_t"
  | int => "int"
  | unsigned => "unsigned"
  | long => "long"
  | void => "void"

def Op.text : Op → String
  | add => "+"
  | sub => "-"
  | mul => "*"
  | div => "/"
  | mod => "%"
  | lt => "<"
  | ge => ">="
  | ne => "!="
  | and => "&&"

def Expr.text : Expr → String
  | lit value => toString value
  | var name => name
  | cell index => "tape[" ++ index.text ++ "]"
  | call function argument => function ++ "(" ++ argument.text ++ ")"
  | toByte e => "(" ++ Ty.uint8.text ++ ")" ++ e.text
  | neg e => "-" ++ e.text
  | paren e => "(" ++ e.text ++ ")"
  | binary op left right => left.text ++ " " ++ op.text ++ " " ++ right.text
  | cond test yes no => test.text ++ " ? " ++ yes.text ++ " : " ++ no.text

def Place.text : Place → String
  | var name => name
  | cell index => (Expr.cell index).text

def commaSeparated (texts : List String) : String := ", ".intercalate texts

/-- The text of a statement that fits on a line by itself. -/
def Stmt.text : Stmt → String
  | declare type inits =>
    type.text ++ " " ++ commaSeparated (inits.map fun (name, e) => name ++ " = " ++ e.text) ++ ";"
  | assign place value => place.text ++ " = " ++ value.text ++ ";"
  | addAssign place value => place.text ++ " += " ++ value.text ++ ";"
  | call function arguments => function ++ "(" ++ commaSeparated (arguments.map Expr.text) ++ ");"
  | putchar byte => "putchar(" ++ byte.text ++ ");"
  | flush => "fflush(stdout);"
  | getchar name => "int " ++ name ++ " = getchar();"
  | discard name => "(void)" ++ name ++ ";"
  | ret value => "return " ++ value.text ++ ";"
  | ifThen test _ => "if (" ++ test.text ++ ") "
  | whileDo test _ => "while (" ++ test.text ++ ") "
  | countDown name _ => "while (" ++ name ++ "--) "
  | block _ => "\x7b"

mutual

def Stmt.lines (depth : Nat) : Stmt → List Line
  | .ifThen test body => Line.label (Stmt.text (.ifThen test body)) (body.lines depth)
  | .whileDo test body => Line.label (Stmt.text (.whileDo test body)) (body.lines depth)
  | .countDown name body => Line.label (Stmt.text (.countDown name body)) (body.lines depth)
  | .block body => ⟨depth, "\x7b"⟩ :: (linesOfAll (depth + 1) body ++ [⟨depth, "\x7d"⟩])
  | s => [⟨depth, s.text⟩]

def linesOfAll (depth : Nat) : List Stmt → List Line
  | [] => []
  | s :: rest => s.lines depth ++ linesOfAll depth rest

end

def Function.header (f : Function) : String :=
  "static " ++ f.result.text ++ " " ++ f.name ++ "("
    ++ commaSeparated (f.parameters.map fun (type, name) => type.text ++ " " ++ name) ++ ") \x7b"

/-- The lines of a function and an empty line after it. -/
def Function.lines (f : Function) : List Line :=
  ⟨0, f.header⟩ :: (linesOfAll 1 f.body ++ [⟨0, "\x7d"⟩, ⟨0, ""⟩])

namespace File

/-- Everything above the functions. -/
def preamble (f : File) : List Line :=
  [⟨0, "#define " ++ lengthName ++ " " ++ toString f.tapeLength⟩,
    ⟨0, "#include <stdio.h>"⟩,
    ⟨0, "#include <stdint.h>"⟩,
    ⟨0, ""⟩,
    ⟨0, "static uint8_t tape[" ++ lengthName ++ "];"⟩,
    ⟨0, "static long " ++ cursorName ++ " = 0;"⟩,
    ⟨0, ""⟩]

def ending : List Line :=
  Stmt.flush.lines 0 ++ (Stmt.ret (.lit 0)).lines 1 ++ [⟨0, "\x7d"⟩]

def lines (f : File) : List Line :=
  f.preamble ++ f.functions.flatMap Function.lines ++ ⟨0, "int main(void) \x7b"⟩ :: (linesOfAll 1 f.main ++ ending)

def render (f : File) : String := Line.renderAll f.lines

end File

end C

end TapeLang
