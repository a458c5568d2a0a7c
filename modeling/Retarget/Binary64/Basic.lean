/-!
# Double-precision numbers as exact integers

`Binary64.ofFloat?` decodes a finite `Float` into a sign, a natural mantissa and a binary exponent, so
that questions about its value are settled by integer arithmetic:

* `wholeNumber?`: the integer a float stands for, when it is small enough to be written as one;
* `remainder`: the exact remainder of a division truncated toward zero.
-/

namespace Retarget

/-- A finite binary number, `± mantissa * 2 ^ exponent`. -/
structure Binary64 where
  negative : Bool
  mantissa : Nat
  exponent : Int
  narrowBelow : Bool
  deriving Repr, DecidableEq

namespace Binary64

def fractionBits (bits : UInt64) : Nat := bits.toNat % 0x10000000000000

def exponentBits (bits : UInt64) : Nat := bits.toNat / 0x10000000000000 % 0x800

def signBit (bits : UInt64) : Bool := bits.toNat / 0x8000000000000000 == 1

/-- The exact value of a finite float; `none` for NaN and the infinities. -/
def ofFloat? (x : Float) : Option Binary64 :=
  let bits := x.toBits
  let fraction := fractionBits bits
  match exponentBits bits with
  | 2047 => none
  | 0 => some ⟨signBit bits, fraction, -1074, false⟩
  | e + 1 => some ⟨signBit bits, 0x10000000000000 + fraction, (e : Int) - 1074, fraction == 0 && e != 0⟩

def natAbs? (b : Binary64) : Option Nat :=
  if 0 ≤ b.exponent then
    some (b.mantissa * Nat.pow 2 b.exponent.toNat)
  else
    let scale := Nat.pow 2 (-b.exponent).toNat
    if b.mantissa % scale == 0 then some (b.mantissa / scale) else none

def toInt? (b : Binary64) : Option Int :=
  b.natAbs?.map fun n => if b.negative then -(n : Int) else n

end Binary64

def wholeLimit : Int := 1000000000000000

/-- The integer a float stands for, when it is whole and below `wholeLimit` in magnitude. -/
def wholeNumber? (x : Float) : Option Int := do
  let n ← (← Binary64.ofFloat? x).toInt?
  if -wholeLimit < n && n < wholeLimit then some n else none

/-- The sign bit of a float, which tells `-0.0` from `0.0`. -/
def isNegative (x : Float) : Bool := Binary64.signBit x.toBits

/-- `sign * n * 2 ^ e` as a float, exact when it is representable. -/
def ofScaled (negative : Bool) (n : Nat) (e : Int) : Float :=
  let magnitude := (Float.ofNat n).scaleB e
  if negative then -magnitude else magnitude

/-- The remainder of `x / y` truncated toward zero, with the sign of `x`. It is always representable, so
no rounding takes place. -/
def remainder (x y : Float) : Float :=
  match Binary64.ofFloat? x, Binary64.ofFloat? y with
  | none, _ => 0.0 / 0.0
  | some _, none => if y.isNaN then y else x
  | some a, some b =>
    if b.mantissa == 0 then 0.0 / 0.0
    else
      let e := min a.exponent b.exponent
      let m := a.mantissa * Nat.pow 2 (a.exponent - e).toNat
      let n := b.mantissa * Nat.pow 2 (b.exponent - e).toNat
      ofScaled a.negative (m % n) e

end Retarget
