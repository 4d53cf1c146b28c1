import ZodGraph.Double.Shortest

/-!
Spellings of doubles: positional for source text, and with an exponent outside a middle range
for JSON text.
-/

namespace ZodGraph

namespace Decimal

/-- Digits around a point, padded with zeros, and no point after a whole number. -/
def positional (d : Decimal) : List Char :=
  let n := d.digits.length
  if d.point ≤ 0 then '0' :: '.' :: List.replicate (-d.point).toNat '0' ++ d.digits
  else if n ≤ d.point then d.digits ++ List.replicate (d.point - n).toNat '0'
  else d.digits.take d.point.toNat ++ '.' :: d.digits.drop d.point.toNat

/-- As `positional`, a whole number being followed by `.0`. -/
def pointed (d : Decimal) : List Char :=
  if d.digits.length ≤ d.point then d.positional ++ ['.', '0'] else d.positional

/-- One digit, the rest after a point, and a signed exponent. -/
def scientific (d : Decimal) : List Char :=
  let e := d.point - 1
  let tail := if d.digits.length ≤ 1 then [] else '.' :: d.digits.drop 1
  d.digits.take 1 ++ tail ++ 'e' :: (if e < 0 then '-' else '+') :: Nat.toDigits 10 e.natAbs

/-- Pointed from `1e-5` up to below `1e16`, scientific elsewhere. -/
def json (d : Decimal) : List Char :=
  if -5 < d.point ∧ d.point ≤ 16 then d.pointed else d.scientific

end Decimal

namespace Double

/-- The sign and the digits of a number in a given layout. -/
def textWith (tie : Tie) (layout : Decimal → List Char) (x : Double) : String :=
  if x.isNaN then "NaN"
  else
    let body := if x.isFinite then String.ofList (layout (x.shortest tie)) else "inf"
    if x.isNegative then "-" ++ body else body

/-- Never an exponent, and no point after a whole number. -/
def toText (x : Double) : String := x.textWith .up Decimal.positional

/-- Never an exponent, and always a point. -/
def toPointedText (x : Double) : String := x.textWith .up Decimal.pointed

/-- The spelling in JSON text. -/
def toJsonText (x : Double) : String := x.textWith .even Decimal.json

end Double

end ZodGraph
