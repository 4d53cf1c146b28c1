/-!
Binary floating point numbers of 64 bits, kept as their bit pattern. Every rounding is that
of an exact quotient of natural numbers, to nearest with a half going to the even neighbour.
-/

namespace ZodGraph

/-- A 64 bit binary floating point number, as its bits. -/
structure Double where
  bits : UInt64
deriving DecidableEq, Inhabited

namespace Double

def pow2 (n : Nat) : Nat := Nat.pow 2 n

def pow10 (n : Nat) : Nat := Nat.pow 10 n

def zero : Double := ⟨0⟩

def infinity : Double := ⟨0x7ff0000000000000⟩

def nan : Double := ⟨0x7ff8000000000000⟩

def neg (x : Double) : Double := ⟨x.bits ^^^ 0x8000000000000000⟩

def isNegative (x : Double) : Bool := pow2 63 ≤ x.bits.toNat

/-- The eleven exponent bits. -/
def exponentField (x : Double) : Nat := x.bits.toNat / pow2 52 % pow2 11

/-- The fifty-two fraction bits. -/
def fractionField (x : Double) : Nat := x.bits.toNat % pow2 52

def isFinite (x : Double) : Bool := x.exponentField != 2047

def isNaN (x : Double) : Bool := x.exponentField == 2047 && x.fractionField != 0

def isZero (x : Double) : Bool := x.exponentField == 0 && x.fractionField == 0

/-- The whole number `m` of a finite magnitude `m * 2 ^ e`. -/
def mantissa (x : Double) : Nat :=
  if x.exponentField = 0 then x.fractionField else pow2 52 + x.fractionField

/-- The exponent `e` of a finite magnitude `m * 2 ^ e`. -/
def exponent (x : Double) : Int :=
  if x.exponentField = 0 then -1074 else (x.exponentField : Int) - 1075

/-- The nearest whole number to `n / d`, a half going to the even one. -/
def roundDiv (n d : Nat) : Nat :=
  let q := n / d
  let r := n % d
  if 2 * r < d then q else if d < 2 * r then q + 1 else q + q % 2

/-- The greatest `p` with `2 ^ p ≤ num / den`, both positive. -/
def floorLog2 (num den : Nat) : Int :=
  let p : Int := (num.log2 : Int) - (den.log2 : Int)
  if num * pow2 (-p).toNat < den * pow2 p.toNat then p - 1 else p

/-- The nearest double to `num / den`; past the largest one it is infinity. -/
def ofRatio (num den : Nat) : Double :=
  if num = 0 then zero
  else
    let e := max (floorLog2 num den - 52) (-1074)
    let q := roundDiv (num * pow2 (-e).toNat) (den * pow2 e.toNat)
    let bits := (e + 1074).toNat * pow2 52 + q
    if 2047 * pow2 52 ≤ bits then infinity else ⟨bits.toUInt64⟩

def ofNat (n : Nat) : Double := ofRatio n 1

def ofInt (n : Int) : Double :=
  if n < 0 then (ofNat n.natAbs).neg else ofNat n.natAbs

/-- The rounded product of two finite magnitudes. -/
def mul (x y : Double) : Double :=
  let e := x.exponent + y.exponent
  ofRatio (x.mantissa * y.mantissa * pow2 e.toNat) (pow2 (-e).toNat)

/-- The rounded quotient of two finite magnitudes, the second positive. -/
def div (x y : Double) : Double :=
  let e := x.exponent - y.exponent
  ofRatio (x.mantissa * pow2 e.toNat) (y.mantissa * pow2 (-e).toNat)

/-- The nearest double to `digits * 10 ^ exp`. Sizes far outside the range are settled
without computing the power. -/
def ofDecimal (digits : Nat) (exp : Int) : Double :=
  if digits = 0 then zero
  else
    let size := ((Nat.toDigits 10 digits).length : Int) + exp
    if 310 < size then infinity
    else if size < -330 then zero
    else ofRatio (digits * pow10 exp.toNat) (pow10 (-exp).toNat)

end Double

end ZodGraph
