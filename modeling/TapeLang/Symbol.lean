/-!
# Symbols

The eight meaningful bytes of a program.  `Symbol.ofByte?` and `Symbol.toByte` are inverse to each other; every
other byte is a comment.
-/

namespace TapeLang

/-- A meaningful byte: `>`, `<`, `+`, `-`, `.`, `,`, `[` or `]`, in this order. -/
inductive Symbol
  | right
  | left
  | inc
  | dec
  | put
  | get
  | opening
  | closing
deriving DecidableEq, Repr

namespace Symbol

def all : List Symbol := [right, left, inc, dec, put, get, opening, closing]

def toByte : Symbol → UInt8
  | right => '>'.toUInt8
  | left => '<'.toUInt8
  | inc => '+'.toUInt8
  | dec => '-'.toUInt8
  | put => '.'.toUInt8
  | get => ','.toUInt8
  | opening => '['.toUInt8
  | closing => ']'.toUInt8

def ofByte? (byte : UInt8) : Option Symbol :=
  all.find? fun s => s.toByte == byte

/-- Moves and adds come in runs; output, input and brackets never do. -/
def isRun : Symbol → Bool
  | right | left | inc | dec => true
  | put | get | opening | closing => false

theorem ofByte?_toByte (s : Symbol) : ofByte? s.toByte = some s := by
  cases s <;> decide

theorem toByte_of_ofByte? {byte : UInt8} {s : Symbol} (h : ofByte? byte = some s) : s.toByte = byte := by
  simpa using List.find?_some h

theorem toByte_injective {s t : Symbol} (h : s.toByte = t.toByte) : s = t := by
  have := ofByte?_toByte s
  rw [h, ofByte?_toByte] at this
  exact (Option.some.inj this).symm

end Symbol

/-- A symbol together with the byte offset in the source at which it stands. -/
structure Mark where
  symbol : Symbol
  position : Nat
deriving DecidableEq, Repr

/-- The symbols of a text whose first byte stands at offset `start`; comments are skipped. -/
def marksFrom (start : Nat) : List UInt8 → List Mark
  | [] => []
  | byte :: rest =>
    match Symbol.ofByte? byte with
    | some s => ⟨s, start⟩ :: marksFrom (start + 1) rest
    | none => marksFrom (start + 1) rest

def marks (source : List UInt8) : List Mark := marksFrom 0 source

theorem marksFrom_append (start : Nat) (s t : List UInt8) :
    marksFrom start (s ++ t) = marksFrom start s ++ marksFrom (start + s.length) t := by
  induction s generalizing start with
  | nil => rfl
  | cons byte rest ih =>
    simp only [List.cons_append, marksFrom, List.length_cons]
    rw [ih, show start + 1 + rest.length = start + (rest.length + 1) by omega]
    split <;> rfl

end TapeLang
