import Projection.Decimal.Binary64

/-!
# Shortest decimals

The text of a double precision number is the shortest decimal that reads back as the number, and
of several the nearest one. `digits` finds the decimal as whole digits and a power of ten by trying
one digit, two digits and so on; seventeen always suffice.

Two layouts are used. `plain` never writes an exponent and adds no fraction to whole numbers.
`marked` always shows that the number is a decimal: it writes a fraction, or an exponent for
numbers of 17 digits and more and below a ten-thousandth.
-/

namespace Projection.Binary64

/-- A decimal `coefficient * 10 ^ power`. -/
structure Decimal where
  coefficient : Nat
  power : Int
  deriving DecidableEq, Repr

namespace Shortest

/-- `4 * mantissa * 2 ^ exponent` over a common denominator with the decimal grid of `power`: the
value as a pair of numerator and denominator in units of `10 ^ power / 4`. -/
def inUnits (quarters : Nat) (exponent power : Int) : Nat × Nat :=
  let up := Nat.pow 2 exponent.toNat * Nat.pow 10 (-power).toNat
  let down := Nat.pow 2 (-exponent).toNat * Nat.pow 10 power.toNat
  (quarters * up, 4 * down)

/-- The decimal with this coefficient lies where numbers round to `mantissa * 2 ^ exponent`. The
ends of that interval belong to it when the mantissa is even; below a power of two it is half as
wide. -/
def readsBack (mantissa : Nat) (exponent power : Int) (coefficient : Nat) : Bool :=
  let below := if mantissa == Nat.pow 2 (precision - 1) && minExponent < exponent then 1 else 2
  let (low, den) := inUnits (4 * mantissa - below) exponent power
  let (high, _) := inUnits (4 * mantissa + 2) exponent power
  let point := coefficient * den
  if mantissa % 2 == 0 then low ≤ point && point ≤ high else low < point && point < high

/-- The nearest of the two neighbours on the grid of `power` that read back, if one does; of two
equally near the greater. -/
def onGrid (mantissa : Nat) (exponent power : Int) : Option Nat :=
  let (num, den) := inUnits (4 * mantissa) exponent power
  let under := num / den
  let above := under + 1
  let good := readsBack mantissa exponent power
  if good under && 0 < under then
    if good above && (above * den - num ≤ num - under * den) then some above else some under
  else if good above then some above
  else none

/-- The exponent of ten of the leading digit of a positive number, or one more. -/
def leadingPower (mantissa : Nat) (exponent : Int) : Int :=
  let bits := (Nat.log2 mantissa : Int) + exponent
  Int.fdiv (bits * 30103) 100000 + 1

/-- Tries grids from coarse to fine. -/
def search (mantissa : Nat) (exponent : Int) : Nat → Int → Decimal
  | 0, power =>
    let (num, den) := inUnits (4 * mantissa) exponent power
    ⟨num / den, power⟩
  | tries + 1, power =>
    match onGrid mantissa exponent power with
    | some coefficient => ⟨coefficient, power⟩
    | none => search mantissa exponent tries (power - 1)

end Shortest

/-- The shortest decimal that reads back as a positive number. -/
def shortest (mantissa : Nat) (exponent : Int) : Decimal :=
  Shortest.search mantissa exponent 20 (Shortest.leadingPower mantissa exponent)

namespace Decimal

/-- The digits of the coefficient without zeros at the end, and the number of digits before the
point. -/
def layout (d : Decimal) : List Char × Int :=
  let digits := Nat.toDigits 10 d.coefficient
  let kept := (digits.reverse.dropWhile (· == '0')).reverse
  (kept, digits.length + d.power)

/-- Positional notation: the whole part and the digits after the point. -/
def positional (digits : List Char) (point : Int) : List Char × List Char :=
  if point ≤ 0 then (['0'], List.replicate (-point).toNat '0' ++ digits)
  else
    let n := point.toNat
    (digits.take n ++ List.replicate (n - digits.length) '0', digits.drop n)

end Decimal

/-- A layout of decimals. -/
structure Format where
  /-- Whether an exponent is written, by the number of digits before the point. -/
  exponentAt : Int → Bool
  /-- A whole number is written with a zero after the point. -/
  showFraction : Bool

/-- Never an exponent, and no fraction for whole numbers. -/
def plain : Format := ⟨fun _ => false, false⟩

/-- At least one digit after the point, or an exponent outside the range from a ten-thousandth to
ten to the sixteenth. -/
def marked : Format := ⟨fun point => point ≤ -4 || 16 < point, true⟩

/-- The text of a number in a layout. -/
def write (format : Format) : Binary64 → String
  | infinite negative => (if negative then "-" else "") ++ "inf"
  | finite negative mantissa exponent =>
    let sign := if negative then "-" else ""
    if mantissa == 0 then sign ++ (if format.showFraction then "0.0" else "0")
    else
      let (digits, point) := (shortest mantissa exponent).layout
      if format.exponentAt point then
        let fraction := digits.drop 1
        sign ++ String.ofList (digits.take 1) ++
          (if fraction.isEmpty then "" else "." ++ String.ofList fraction) ++
          "e" ++ toString (point - 1)
      else
        let (whole, fraction) := Decimal.positional digits point
        sign ++ String.ofList whole ++
          (if fraction.isEmpty then (if format.showFraction then ".0" else "")
           else "." ++ String.ofList fraction)

end Projection.Binary64
