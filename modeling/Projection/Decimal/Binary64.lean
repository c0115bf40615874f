/-!
# Double precision numbers

A finite number is a whole number of at most 53 bits times a power of two, with a sign; zero has a
sign too. `ofRatio` gives the number nearest to a fraction, the even one of two that are equally
near, and `ofDecimal` reads digits with a point.
-/

namespace Projection

/-- A double precision number that is not an error value: `mantissa * 2 ^ exponent` with a sign, or
an infinity. -/
inductive Binary64 where
  | finite (negative : Bool) (mantissa : Nat) (exponent : Int)
  | infinite (negative : Bool)
  deriving DecidableEq, Repr, Inhabited

namespace Binary64

/-- Bits of a mantissa. -/
def precision : Nat := 53

/-- The least exponent of a number. -/
def minExponent : Int := -1074

/-- The greatest exponent of a full mantissa. -/
def maxExponent : Int := 971

/-- The number with the opposite sign. -/
def neg : Binary64 → Binary64
  | finite negative mantissa exponent => finite (!negative) mantissa exponent
  | infinite negative => infinite (!negative)

/-- The whole number nearest to `num / den`, the even one of two that are equally near. -/
def roundHalfEven (num den : Nat) : Nat :=
  let quotient := num / den
  let twice := 2 * (num % den)
  if twice < den then quotient
  else if den < twice then quotient + 1
  else if quotient % 2 == 0 then quotient else quotient + 1

/-- `num / den / 2 ^ exponent`, rounded to a whole number. -/
def scaled (num den : Nat) (exponent : Int) : Nat :=
  if 0 ≤ exponent then roundHalfEven num (den * Nat.pow 2 exponent.toNat)
  else roundHalfEven (num * Nat.pow 2 (-exponent).toNat) den

/-- An exponent for which the mantissa of `num / den` has 53 bits, or one more. -/
def exponentFor (num den : Nat) : Int :=
  max minExponent ((Nat.log2 num : Int) - (Nat.log2 den : Int) - precision)

/-- The number nearest to `num / den`. Zero has exponent 0, so equal numbers are written alike. -/
def ofRatio (num den : Nat) : Binary64 :=
  if num == 0 then finite false 0 0
  else
    let first := exponentFor num den
    let exponent := if scaled num den first < Nat.pow 2 precision then first else first + 1
    let rounded := scaled num den exponent
    let (mantissa, exponent) :=
      if rounded < Nat.pow 2 precision then (rounded, exponent) else (rounded / 2, exponent + 1)
    if maxExponent < exponent then infinite false
    else if mantissa == 0 then finite false 0 0
    else finite false mantissa exponent

/-- The value of a row of decimal digits. -/
def digitsValue (digits : List Char) : Nat :=
  digits.foldl (fun n c => 10 * n + (c.toNat - '0'.toNat)) 0

/-- The number nearest to the decimal with these digits before and after the point. -/
def ofDecimal (whole fraction : List Char) : Binary64 :=
  ofRatio (digitsValue (whole ++ fraction)) (Nat.pow 10 fraction.length)

end Binary64

end Projection
