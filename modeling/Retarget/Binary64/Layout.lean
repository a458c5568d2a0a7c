import Retarget.Binary64.Shortest
import Retarget.Text.Pieces

/-!
# Written forms of floats

A `FloatLayout` says how the shortest decimal of a number is laid out as text. Three layouts are in use:

* `FloatLayout.json` for numbers in JSON documents;
* `FloatLayout.source` for number literals in generated code;
* `FloatLayout.plain` for numbers used as names, which never have an exponent.
-/

namespace Retarget

structure FloatLayout where
  tie : Tie
  /-- Least and greatest decimal exponent written without an exponent part; `none` writes all so. -/
  positional : Option (Int × Int)
  /-- A whole number ends in `.0`. -/
  pointZero : Bool
  plusSign : Bool

namespace FloatLayout

/-- Positional from `1e-5` up to `1e15`, with `.0` on whole numbers and a sign on every exponent. -/
def json : FloatLayout := ⟨.toEven, some (-5, 15), true, true⟩

/-- Positional from `1e-4` up to `1e15`, with `.0` on whole numbers. -/
def source : FloatLayout := ⟨.up, some (-4, 15), true, false⟩

def plain : FloatLayout := ⟨.up, none, false, false⟩

/-- The digits with a point `point` places after their start, zeros filled in on either side. -/
def placePoint (layout : FloatLayout) (digits : List Char) (point : Int) : String :=
  let whole := if layout.pointZero then ".0" else ""
  if point ≤ 0 then
    "0." ++ copies (-point).toNat '0' ++ String.ofList digits
  else
    let n := point.toNat
    if digits.length ≤ n then
      String.ofList digits ++ copies (n - digits.length) '0' ++ whole
    else
      String.ofList (digits.take n) ++ "." ++ String.ofList (digits.drop n)

def withExponent (layout : FloatLayout) (digits : List Char) (e : Int) : String :=
  let significand :=
    match digits with
    | [] => ""
    | [d] => String.singleton d
    | d :: rest => String.singleton d ++ "." ++ String.ofList rest
  let sign := if e < 0 then "-" else if layout.plusSign then "+" else ""
  significand ++ "e" ++ sign ++ toString e.natAbs

def magnitude (layout : FloatLayout) (d : Decimal) : String :=
  if d.digits == 0 then
    if layout.pointZero then "0.0" else "0"
  else
    let digits := Nat.toDigits 10 d.digits
    let e := d.exponent + digits.length - 1
    match layout.positional with
    | none => layout.placePoint digits (e + 1)
    | some (least, greatest) =>
      if least ≤ e && e ≤ greatest then layout.placePoint digits (e + 1)
      else layout.withExponent digits e

/-- The text of a finite float; `none` for NaN and the infinities. -/
def write? (layout : FloatLayout) (x : Float) : Option String :=
  (Binary64.ofFloat? x).map fun b =>
    (if b.negative then "-" else "") ++ layout.magnitude (b.shortest layout.tie)

def write (layout : FloatLayout) (x : Float) : String :=
  match layout.write? x with
  | some text => text
  | none => if x.isNaN then "NaN" else if x < 0.0 then "-inf" else "inf"

end FloatLayout

def writeTenths (x : Float) (n : Int) : String :=
  (if isNegative x then "-" else "") ++ toString n.natAbs ++ ".0"

end Retarget
