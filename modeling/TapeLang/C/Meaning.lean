import TapeLang.C.Syntax
import TapeLang.Process

/-!
# The meaning of a file

A file runs as a process on a zeroed tape.  An operand narrower than `int` is promoted to `int`, `int` has 32 bits
and `long` 64, unsigned arithmetic wraps, and what is stored in a `uint8_t` is reduced modulo 256.  Where C leaves a
program undefined (signed overflow, an index off the array, a division by zero, an unknown name) the process is
stuck.
-/

namespace TapeLang.C

/-- A value with its type after promotion. -/
structure Value where
  type : Ty
  value : Int
deriving DecidableEq, Repr

/-- The number of values of `unsigned`, which has 32 bits. -/
def unsignedRange : Int := 4294967296

/-- The values of `int`, which has 32 bits, start at the negative of this and end just below it. -/
def intBound : Int := 2147483648

/-- The values of `long`, which has 64 bits, start at the negative of this and end just below it. -/
def longBound : Int := 9223372036854775808

/-- What is left of a number when it is stored in a variable of the type. -/
def Ty.store : Ty → Int → Int
  | uint8, v => v % 256
  | unsigned, v => v % unsignedRange
  | int, v | long, v | void, v => v

def Ty.promoted : Ty → Ty
  | uint8 => int
  | t => t

/-- The type in which two operands meet. -/
def Ty.common (a b : Ty) : Ty :=
  if a = long ∨ b = long then long
  else if a = unsigned ∨ b = unsigned then unsigned
  else int

/-- The result of an operation in a type, if it is defined. -/
def Ty.result? : Ty → Int → Option Value
  | unsigned, v => some ⟨unsigned, v % unsignedRange⟩
  | long, v => if -longBound ≤ v ∧ v < longBound then some ⟨long, v⟩ else none
  | int, v => if -intBound ≤ v ∧ v < intBound then some ⟨int, v⟩ else none
  | uint8, _ | void, _ => none

def truth (b : Bool) : Value := ⟨.int, if b then 1 else 0⟩

/-- An operation on two numbers of one type. -/
def Op.value? (op : Op) (type : Ty) (a b : Int) : Option Value :=
  match op with
  | .add => type.result? (a + b)
  | .sub => type.result? (a - b)
  | .mul => type.result? (a * b)
  | .div => if b = 0 then none else type.result? (a.tdiv b)
  | .mod => if b = 0 then none else type.result? (a.tmod b)
  | .lt => some (truth (a < b))
  | .ge => some (truth (b ≤ a))
  | .ne => some (truth (a != b))
  | .and => some (truth (a != 0 && b != 0))

/-- A constant has the first of the types `int` and `long` that it fits in. -/
def constant? (n : Nat) : Option Value :=
  if (n : Int) < intBound then some ⟨.int, n⟩ else Ty.long.result? n

structure Variable where
  name : String
  type : Ty
  value : Int
deriving DecidableEq, Repr

/-- The variables that can be seen, the innermost first, and the two globals. -/
structure Scope where
  locals : List Variable
  tape : Array UInt8
  cursor : Int

namespace Scope

def lookup? (s : Scope) (name : String) : Option Variable := s.locals.find? fun v => v.name == name

def declare (s : Scope) (name : String) (type : Ty) (value : Int) : Scope :=
  { s with locals := ⟨name, type, type.store value⟩ :: s.locals }

/-- Changes the innermost variable of a name. -/
def setLocal (name : String) (value : Int) : List Variable → List Variable
  | [] => []
  | v :: rest =>
    if v.name = name then { v with value := v.type.store value } :: rest else v :: setLocal name value rest

def cell? (s : Scope) (index : Int) : Option UInt8 :=
  if index < 0 then none else s.tape[index.toNat]?

def setCell? (s : Scope) (index value : Int) : Option Scope :=
  if 0 ≤ index ∧ index.toNat < s.tape.size then
    some { s with tape := s.tape.setIfInBounds index.toNat (UInt8.ofInt (Ty.uint8.store value)) }
  else none

def setVariable? (s : Scope) (name : String) (value : Int) : Option Scope :=
  if (s.lookup? name).isSome then some { s with locals := setLocal name value s.locals }
  else if name = cursorName then some { s with cursor := Ty.long.store value }
  else none

/-- The value of a name. -/
def get? (length : Nat) (s : Scope) (name : String) : Option Value :=
  match s.lookup? name with
  | some v => some ⟨v.type.promoted, v.value⟩
  | none =>
    if name = cursorName then some ⟨.long, s.cursor⟩
    else if name = lengthName then some ⟨.int, length⟩
    else if name = endName then some ⟨.int, -1⟩
    else none

end Scope

/-- How the functions of a file are called in expressions. -/
abbrev Caller := String → Int → Scope → Option Value

/-- The value of an expression.  Evaluation changes nothing. -/
def Expr.eval? (length : Nat) (caller : Caller) (s : Scope) : Expr → Option Value
  | lit value => constant? value
  | var name => s.get? length name
  | cell index => do
    let i ← index.eval? length caller s
    return ⟨.int, (← s.cell? i.value).toNat⟩
  | call function argument => do
    caller function (← argument.eval? length caller s).value s
  | toByte e => do return ⟨.int, Ty.uint8.store (← e.eval? length caller s).value⟩
  | neg e => do
    let v ← e.eval? length caller s
    v.type.result? (-v.value)
  | paren e => e.eval? length caller s
  | binary .and left right => do
    let a ← left.eval? length caller s
    if a.value = 0 then return truth false
    let b ← right.eval? length caller s
    return truth (b.value != 0)
  | binary op left right => do
    let a ← left.eval? length caller s
    let b ← right.eval? length caller s
    let type := a.type.common b.type
    op.value? type (type.store a.value) (type.store b.value)
  | cond test yes no => do
    let t ← test.eval? length caller s
    if t.value = 0 then no.eval? length caller s else yes.eval? length caller s

/-- Stores a value at a place. -/
def Place.set? (length : Nat) (caller : Caller) (s : Scope) (value : Int) : Place → Option Scope
  | var name => s.setVariable? name value
  | cell index => do s.setCell? (← index.eval? length caller s).value value

/-- The expression that reads a place. -/
def Place.toExpr : Place → Expr
  | var name => .var name
  | cell index => .cell index

/-- Declares variables one after the other. -/
def declareAll? (length : Nat) (caller : Caller) (type : Ty) : List (String × Expr) → Scope → Option Scope
  | [], s => some s
  | (name, e) :: rest, s => do
    declareAll? length caller type rest (s.declare name type (← e.eval? length caller s).value)

mutual

/-- A statement of a function body: the scope after it, and the value if it returns one.  Function bodies have no
loops, no input or output, and call no functions. -/
def Stmt.runPlain? (length : Nat) (s : Scope) : Stmt → Option (Scope × Option Int)
  | .declare type inits => do return (← declareAll? length (fun _ _ _ => none) type inits s, none)
  | .assign place value => do
    let v ← value.eval? length (fun _ _ _ => none) s
    return (← place.set? length (fun _ _ _ => none) s v.value, none)
  | .addAssign place value => do
    let v ← (Expr.binary .add place.toExpr value).eval? length (fun _ _ _ => none) s
    return (← place.set? length (fun _ _ _ => none) s v.value, none)
  | .ret value => do return (s, some (← value.eval? length (fun _ _ _ => none) s).value)
  | .ifThen test body => do
    let t ← test.eval? length (fun _ _ _ => none) s
    if t.value = 0 then return (s, none) else body.runPlain? length s
  | .discard _ => some (s, none)
  | .block body => runPlainAll? length s body
  | _ => none

def runPlainAll? (length : Nat) (s : Scope) : List Stmt → Option (Scope × Option Int)
  | [] => some (s, none)
  | statement :: rest => do
    let (s, returned) ← statement.runPlain? length s
    match returned with
    | some v => return (s, some v)
    | none => runPlainAll? length s rest

end

/-- The parameters of a function as variables that hold the arguments, the last one first. -/
def Function.bound (f : Function) (arguments : List Int) : List Variable :=
  ((f.parameters.zip arguments).map fun ((type, name), v) => (⟨name, type, type.store v⟩ : Variable)).reverse

/-- Calls a function: its parameters get the arguments, and of its scope only the globals are left. -/
def Function.call? (f : Function) (length : Nat) (s : Scope) (arguments : List Int) : Option (Scope × Option Value) :=
  if arguments.length = f.parameters.length then
    (runPlainAll? length { s with locals := f.bound arguments } f.body).map fun (after, returned) =>
      ({ after with locals := s.locals }, returned.map fun v => ⟨f.result.promoted, f.result.store v⟩)
  else none

namespace File

def function? (f : File) (name : String) : Option Function := f.functions.find? fun g => g.name == name

/-- A function called for its value. -/
def caller (f : File) : Caller := fun name argument s => do
  let (_, returned) ← (← f.function? name).call? f.tapeLength s [argument]
  returned

def eval? (f : File) (s : Scope) (e : Expr) : Option Value := e.eval? f.tapeLength f.caller s

def evalAll? (f : File) (s : Scope) (es : List Expr) : Option (List Int) :=
  es.mapM fun e => (f.eval? s e).map Value.value

end File

/-- What is left to do. -/
inductive Task
  | statement (s : Stmt)
  /-- The end of a block: only this many variables stay. -/
  | leave (count : Nat)

structure State where
  todo : List Task
  scope : Scope
  /-- The program has done something that C does not define. -/
  stuck : Bool

namespace State

def start (f : File) : State where
  todo := (f.main ++ [Stmt.flush, Stmt.ret (.lit 0)]).map .statement
  scope := ⟨[], Array.replicate f.tapeLength 0, 0⟩
  stuck := false

def request (f : File) (st : State) : Request :=
  if st.stuck then .halt
  else
    match st.todo with
    | [] => .halt
    | .statement (.putchar byte) :: _ =>
      match f.eval? st.scope byte with
      | some v => .write (UInt8.ofInt (Ty.uint8.store v.value))
      | none => .silent
    | .statement .flush :: _ => .flush
    | .statement (.getchar _) :: _ => .read
    | _ => .silent

/-- Carries out a statement; `none` if that is not defined. -/
def carryOut? (f : File) (scope : Scope) (rest : List Task) (answer : Option UInt8) :
    Stmt → Option (List Task × Scope)
  | .declare type inits => do return (rest, ← declareAll? f.tapeLength f.caller type inits scope)
  | .assign place value => do
    let v ← f.eval? scope value
    return (rest, ← place.set? f.tapeLength f.caller scope v.value)
  | .addAssign place value => do
    let v ← f.eval? scope (.binary .add place.toExpr value)
    return (rest, ← place.set? f.tapeLength f.caller scope v.value)
  | .call name arguments => do
    let (scope, _) ← (← f.function? name).call? f.tapeLength scope (← f.evalAll? scope arguments)
    return (rest, scope)
  | .putchar byte => do
    let _ ← f.eval? scope byte
    return (rest, scope)
  | .flush => some (rest, scope)
  | .getchar name =>
    some (rest, scope.declare name .int (match answer with | some byte => byte.toNat | none => -1))
  | .discard name => do
    let _ ← scope.get? f.tapeLength name
    return (rest, scope)
  | .ret value => do
    let _ ← f.eval? scope value
    return ([], scope)
  | .ifThen test body => do
    let t ← f.eval? scope test
    return (if t.value = 0 then rest else .statement body :: rest, scope)
  | .whileDo test body => do
    let t ← f.eval? scope test
    return (if t.value = 0 then rest else .statement body :: .statement (.whileDo test body) :: rest, scope)
  | .countDown name body => do
    let v ← scope.lookup? name
    let scope ← scope.setVariable? name (v.value - 1)
    return (if v.value = 0 then rest else .statement body :: .statement (.countDown name body) :: rest, scope)
  | .block body => some (body.map .statement ++ .leave scope.locals.length :: rest, scope)

def resume (f : File) (st : State) (answer : Option UInt8) : State :=
  match st.todo with
  | [] => st
  | .leave count :: rest =>
    { st with todo := rest
              scope := { st.scope with locals := st.scope.locals.drop (st.scope.locals.length - count) } }
  | .statement s :: rest =>
    match carryOut? f st.scope rest answer s with
    | some (todo, scope) => { st with todo := todo, scope := scope }
    | none => { st with stuck := true }

end State

/-- A file as a process. -/
def File.process (f : File) : Process State := ⟨State.request f, State.resume f⟩

end TapeLang.C
