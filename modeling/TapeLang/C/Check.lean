import TapeLang.C.Meaning

/-!
# What a file has to observe

`File.WellFormed` collects what C demands of a file before it is run.  A variable is declared before it is used, not
twice in a block, and not by means of itself.  Functions have names of their own, are called with as many arguments
as they have parameters, and for their value only if they have one.  The bodies of the functions other than `main`
are plain: they have no loops, do no input or output and call nothing.
-/

namespace TapeLang.C

/-- What can be used at some place in a file. -/
structure Context where
  /-- The functions that can be called. -/
  functions : List Function
  /-- What a `return` gives. -/
  result : Ty
  /-- Loops and input and output are allowed. -/
  free : Bool
  /-- The variables that can be seen. -/
  visible : List String
  /-- Those of the innermost block. -/
  block : List String

/-- The names that stand for something in every file. -/
def globalNames : List String := [cursorName, lengthName, endName]

namespace Context

def knows (c : Context) (x : String) : Bool := c.visible.contains x || globalNames.contains x

/-- A function of this name and number of parameters can be called. -/
def canCall (c : Context) (f : String) (arguments : Nat) (value : Bool) : Bool :=
  !c.visible.contains f
    && c.functions.any fun g => g.name == f && g.parameters.length == arguments && (!value || g.result != .void)

def declare? (c : Context) (x : String) : Option Context :=
  if c.block.contains x || x == lengthName || x == endName then none
  else some { c with visible := x :: c.visible, block := x :: c.block }

/-- The inside of a block. -/
def inner (c : Context) : Context := { c with block := [] }

end Context

namespace Expr

/-- The variables in an expression. -/
def names : Expr → List String
  | lit _ => []
  | var x => [x]
  | cell e | call _ e | toByte e | neg e | paren e => e.names
  | binary _ left right => left.names ++ right.names
  | cond test yes no => test.names ++ yes.names ++ no.names

def check (c : Context) : Expr → Bool
  | lit n => (constant? n).isSome
  | var x => c.knows x
  | call f argument => c.canCall f 1 true && argument.check c
  | cell e | toByte e | neg e | paren e => e.check c
  | binary _ left right => left.check c && right.check c
  | cond test yes no => test.check c && yes.check c && no.check c

end Expr

/-- Constants cannot be assigned to. -/
def Place.check (c : Context) : Place → Bool
  | var x => c.visible.contains x || x == cursorName
  | cell index => index.check c

def checkInits? (c : Context) : List (String × Expr) → Option Context
  | [] => some c
  | (x, e) :: rest =>
    if e.check c && !e.names.contains x then (c.declare? x).bind fun c => checkInits? c rest else none

mutual

/-- What can be used behind a statement, if the statement is well-formed. -/
def Stmt.check? (c : Context) : Stmt → Option Context
  | .declare type inits => if type = .void then none else checkInits? c inits
  | .assign place value | .addAssign place value => if place.check c && value.check c then some c else none
  | .call f arguments => if c.canCall f arguments.length false && arguments.all (·.check c) then some c else none
  | .putchar byte => if c.free && byte.check c then some c else none
  | .flush => if c.free then some c else none
  | .getchar x => if c.free then c.declare? x else none
  | .discard x => if c.knows x then some c else none
  | .ret value => if c.result != .void && value.check c then some c else none
  | .ifThen test body => if test.check c && (body.check? c).isSome then some c else none
  | .whileDo test body => if c.free && test.check c && (body.check? c).isSome then some c else none
  | .countDown x body =>
    if c.free && (Place.var x).check c && (body.check? c).isSome then some c else none
  | .block body => if (checkAll? c.inner body).isSome then some c else none

def checkAll? (c : Context) : List Stmt → Option Context
  | [] => some c
  | s :: rest => (s.check? c).bind fun c => checkAll? c rest

end

/-- Parameters belong to the outermost block of a function, and a function that has a value ends by returning it. -/
def Function.check (f : Function) : Bool :=
  let parameters := f.parameters.map Prod.snd
  decide parameters.Nodup && f.parameters.all (fun parameter => parameter.1 != .void)
    && parameters.all (fun x => x != lengthName && x != endName) && !globalNames.contains f.name
    && (checkAll? ⟨[], f.result, false, parameters, parameters⟩ f.body).isSome
    && (f.result == .void || (match f.body.getLast? with | some (.ret _) => true | _ => false))

namespace File

def check (f : File) : Bool :=
  decide (0 < f.tapeLength ∧ f.tapeLength < intBound) && decide (f.functions.map Function.name).Nodup
    && f.functions.all Function.check
    && (checkAll? ⟨f.functions, .int, true, [], []⟩ (f.main ++ [.flush, .ret (.lit 0)])).isSome

/-- The file observes everything that C demands of it. -/
def WellFormed (f : File) : Prop := f.check = true

instance (f : File) : Decidable f.WellFormed := inferInstanceAs (Decidable (f.check = true))

end File

end TapeLang.C
