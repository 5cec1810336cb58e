import TapeLang.Instruction
import TapeLang.Tape

/-!
# The effect of closed forms

What each closed form leaves on the tape.  All arithmetic is modulo 256.
-/

namespace TapeLang

namespace Tape

/-- Adds `weight * v` to every target, where `v` is the cell under the cursor, then clears that cell. -/
def transfer (t : Tape) (entries : List (Int8 × Int8)) : Tape :=
  let v := t.current
  (entries.foldl (fun t entry => t.add entry.1.toInt (entry.2.toUInt8 * v)) t).setCurrent 0

/-- The first of `a` rounds adds `b` to `c2`.  In it the scratch cell `c3` is folded into `c1`, so every later round
adds `b + c3`. -/
def multiply (t : Tape) : Tape :=
  let a := t.current
  if a = 0 then t
  else
    let b := t.get 1
    let r := t.get 2
    let factor := b + t.get 3
    (((t.set 1 factor).set 2 (r + b + (a - 1) * factor)).set 3 0).setCurrent 0

theorem multiply_of_zero {t : Tape} (zero : t.current = 0) : t.multiply = t := if_pos zero

def exponent (t : Tape) : Tape :=
  let e := t.current
  if e = 0 then t
  else
    let base := t.get 1
    let result := Nat.repeat (· * base) e.toNat (t.get 2)
    (((t.set 2 result).set 3 0).set 4 0).setCurrent 0

theorem exponent_of_zero {t : Tape} (zero : t.current = 0) : t.exponent = t := if_pos zero

/-- A divisor of zero counts as 256. -/
def divisor (d : UInt8) : Nat := if d = 0 then 256 else d.toNat

def divide (t : Tape) : Tape :=
  let n := t.current.toNat
  if n = 0 then t
  else
    let d := divisor (t.get 1)
    (((t.set 1 (UInt8.ofNat (d - n % d))).set 2 (UInt8.ofNat (n % d))).set 3 (UInt8.ofNat (n / d))).setCurrent 0

theorem divide_of_zero {t : Tape} (zero : t.current = 0) : t.divide = t := if_pos (congrArg UInt8.toNat zero)

end Tape

def ClosedForm.apply : ClosedForm → Tape → Tape
  | clear, t => t.setCurrent 0
  | transferAdd target, t => t.transfer [(target, 1)]
  | transferSub target, t => t.transfer [(target, -1)]
  | multiply, t => t.multiply
  | exponent, t => t.exponent
  | divide, t => t.divide
  | weighted entries, t => t.transfer entries

end TapeLang
