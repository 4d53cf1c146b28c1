import ZodGraph.Double

/-!
The shortest decimal that reads back as a given double, and of those the nearest. All tests
are exact comparisons of natural numbers.
-/

namespace ZodGraph

/-- The number `0.d₁d₂… * 10 ^ point`, without trailing zeros. -/
structure Decimal where
  digits : List Char
  point : Int
deriving DecidableEq

/-- Which of two equally near decimals is taken. -/
inductive Tie where
  | up
  | even
deriving DecidableEq

namespace Double

/-- The reals that round to a positive `m * 2 ^ e`, in units of `2 ^ (e - 2)`. -/
structure Window where
  low : Nat
  mid : Nat
  high : Nat
  /-- The end points round to it as well. -/
  closed : Bool

/-- Just above a power of two the gap below is half as wide. -/
def window (x : Double) : Window where
  low := 4 * x.mantissa - (if x.fractionField = 0 ∧ 1 < x.exponentField then 1 else 2)
  mid := 4 * x.mantissa
  high := 4 * x.mantissa + 2
  closed := x.mantissa % 2 = 0

/-- The least `p` with `num / den < 10 ^ p`. -/
def magnitude (num den : Nat) : Int :=
  if den ≤ num then (Nat.toDigits 10 (num / den)).length
  else 1 - ((Nat.toDigits 10 ((den - 1) / num)).length : Int)

/-- The multiple of `10 ^ t` nearest to the middle among its two neighbours inside the window,
as a multiplier. The window is scaled by `2 ^ s`. -/
def onGrid (tie : Tie) (w : Window) (s t : Int) : Option Nat :=
  let scale := pow2 s.toNat * pow10 (-t).toNat
  let step := pow10 t.toNat * pow2 (-s).toNat
  let d := w.mid * scale / step
  let below := d * step
  let above := (d + 1) * step
  let lowOk := if w.closed then w.low * scale ≤ below else w.low * scale < below
  let highOk := if w.closed then above ≤ w.high * scale else above < w.high * scale
  if lowOk ∧ highOk then
    let under := w.mid * scale - below
    let beyond := above - w.mid * scale
    if under < beyond ∨ (under = beyond ∧ tie = .even ∧ d % 2 = 0) then some d else some (d + 1)
  else if lowOk then some d
  else if highOk then some (d + 1)
  else none

/-- The fewest digits that read back as `x`, a finite number, sign left out. -/
def shortest (tie : Tie) (x : Double) : Decimal :=
  if x.mantissa = 0 then ⟨['0'], 1⟩
  else
    let w := x.window
    let s := x.exponent - 2
    let p := magnitude (w.mid * pow2 s.toNat) (pow2 (-s).toNat)
    let hit := (List.range 17).findSome? fun (n : Nat) =>
      (onGrid tie w s (p - (n + 1))).map fun d => (d, p - (n + 1 : Int))
    let (d, t) := hit.getD (0, 0)
    let ds := Nat.toDigits 10 d
    ⟨(ds.reverse.dropWhile (· = '0')).reverse, ds.length + t⟩

end Double

end ZodGraph
