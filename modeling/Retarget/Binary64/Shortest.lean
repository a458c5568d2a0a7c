import Retarget.Binary64.Basic

/-!
# Shortest decimals

`Binary64.shortest` gives the decimal with the fewest digits among those that round to a given finite
number, and of these the nearest one. The numbers that round to it form an interval around it, whose ends
belong to it exactly when the mantissa is even; the search looks for the coarsest power of ten that has a
multiple in that interval.
-/

namespace Retarget

/-- A decimal `digits * 10 ^ exponent`. -/
structure Decimal where
  digits : Nat
  exponent : Int
  deriving Repr, DecidableEq

inductive Tie where
  | toEven
  | up
  deriving Repr, DecidableEq

namespace Binary64

/-- The number and the ends of its rounding interval, counted in quarters of a unit in the last place. -/
structure Window where
  low : Nat
  value : Nat
  high : Nat
  closed : Bool
  exponent : Int

def window (b : Binary64) : Window where
  low := 4 * b.mantissa - (if b.narrowBelow then 1 else 2)
  value := 4 * b.mantissa
  high := 4 * b.mantissa + 2
  closed := b.mantissa % 2 == 0
  exponent := b.exponent - 2

namespace Window

/-- Numerator and denominator scales that turn quarters into multiples of `10 ^ k`. -/
def scales (w : Window) (k : Int) : Nat × Nat :=
  (Nat.pow 2 w.exponent.toNat * Nat.pow 10 (-k).toNat, Nat.pow 2 (-w.exponent).toNat * Nat.pow 10 k.toNat)

/-- Whether `c * 10 ^ k` rounds to the number. -/
def admits (w : Window) (k : Int) (c : Nat) : Bool :=
  let (num, den) := w.scales k
  if w.closed then w.low * num ≤ c * den && c * den ≤ w.high * num
  else w.low * num < c * den && c * den < w.high * num

/-- The multiple of `10 ^ k` that rounds to the number and is nearest to it, if one does. -/
def nearest? (tie : Tie) (w : Window) (k : Int) : Option Nat :=
  let (num, den) := w.scales k
  let c := w.value * num / den
  match w.admits k c, w.admits k (c + 1) with
  | false, false => none
  | true, false => some c
  | false, true => some (c + 1)
  | true, true =>
    let below := w.value * num - c * den
    let above := (c + 1) * den - w.value * num
    if below < above then some c
    else if above < below then some (c + 1)
    else
      match tie with
      | .toEven => some (if c % 2 == 0 then c else c + 1)
      | .up => some (c + 1)

/-- Tries `steps` powers of ten, from `10 ^ k` downward. -/
def search (tie : Tie) (w : Window) : Nat → Int → Decimal
  | 0, k => ⟨0, k⟩
  | steps + 1, k =>
    match w.nearest? tie k with
    | some c => ⟨c, k⟩
    | none => search tie w steps (k - 1)

end Window

def ceilingExponent (w : Window) : Int :=
  ((Nat.log2 w.value : Int) + w.exponent) * 30103 / 100000 + 2

/-- The fewest decimal digits that read back as the magnitude of `b`. Seventeen digits always suffice, and
the search starts at most three powers of ten above the first digit. -/
def shortest (tie : Tie) (b : Binary64) : Decimal :=
  if b.mantissa == 0 then ⟨0, 0⟩
  else
    let w := b.window
    w.search tie 24 (ceilingExponent w)

end Binary64

end Retarget
