/-!
Finite binary64 numbers in exact arithmetic: rounding a fraction to the nearest one, and the
shortest decimal that rounds back.
-/
namespace FormSchema

/-- The number `±mantissa · 2^exponent`. The mantissa is below `2^53`, and at least `2^52` unless
the exponent is the least one, `-1074`. -/
structure Double where
  negative : Bool
  mantissa : Nat
  exponent : Int
deriving DecidableEq, Repr

namespace Double

def leastNormal : Nat := 4503599627370496

def zero (negative : Bool) : Double := ⟨negative, 0, -1074⟩

/-- Equal as numbers: the two zeros are the same. -/
def same (a b : Double) : Bool := a = b || (a.mantissa = 0 && b.mantissa = 0)

/-- `num / den` to the nearest integer, a half to the even one. -/
def roundQuotient (num den : Nat) : Nat :=
  let quotient := num / den
  let twice := 2 * (num % den)
  if twice > den || (twice = den && quotient % 2 = 1) then quotient + 1 else quotient

/-- The number nearest to `num / den` on the grid of its binade, or none beyond the largest one. -/
def ofQuotient (negative : Bool) (num den : Nat) : Option Double :=
  if num = 0 then some (zero negative) else
  let scaled (e : Int) : Nat × Nat := (num * Nat.pow 2 (-e).toNat, den * Nat.pow 2 e.toNat)
  let guess : Int := (num.log2 : Int) - den.log2 - 52
  let (n, d) := scaled guess
  let exponent := max (-1074) (if n / d < leastNormal then guess - 1 else guess)
  let (n, d) := scaled exponent
  let rounded := roundQuotient n d
  let (mantissa, exponent) :=
    if rounded = 2 * leastNormal then (leastNormal, exponent + 1) else (rounded, exponent)
  if exponent > 971 then none else some ⟨negative, mantissa, exponent⟩

/-- The number nearest to `digits · 10^exponent`, or none beyond the largest one. All numbers are
below `10^309`, and what is below `10^-324` is nearest to zero. -/
def ofDecimal (negative : Bool) (digits : Nat) (exponent : Int) : Option Double :=
  let point : Int := (Nat.toDigits 10 digits).length + exponent
  if digits = 0 || point < -323 then some (zero negative)
  else if 309 < point then none
  else ofQuotient negative (digits * Nat.pow 10 exponent.toNat) (Nat.pow 10 (-exponent).toNat)

def magnitude (d : Double) : Nat × Nat :=
  (d.mantissa * Nat.pow 2 d.exponent.toNat, Nat.pow 2 (-d.exponent).toNat)

/-- The digits and the power of ten of the shortest decimal that rounds to a nonzero magnitude; of
several the nearest, and of two equally near the even one.

The numbers that round to `m · 2^e` lie between the midpoints to its neighbours. A coarser decimal
grid is tried before a finer one, and on each grid only the two points next to the number. -/
def shortest (d : Double) : Nat × Int :=
  let m := 4 * d.mantissa
  let low := if d.mantissa = leastNormal && d.exponent > -1074 then m - 1 else m - 2
  let high := m + 2
  let closed := d.mantissa % 2 = 0
  let e := d.exponent - 2
  let top : Int := ((d.mantissa.log2 : Int) + d.exponent + 1) * 30103 / 100000 + 2
  let attempt (step : Nat) : Option (Nat × Int) :=
    let k : Int := top - step
    let unit := Nat.pow 2 e.toNat * Nat.pow 10 (-k).toNat
    let grid := Nat.pow 2 (-e).toNat * Nat.pow 10 k.toNat
    let inside (c : Nat) : Bool :=
      c ≠ 0 && if closed then low * unit ≤ c * grid && c * grid ≤ high * unit
        else low * unit < c * grid && c * grid < high * unit
    let below := m * unit / grid
    match inside below, inside (below + 1) with
    | true, true => some (roundQuotient (m * unit) grid, k)
    | true, false => some (below, k)
    | false, true => some (below + 1, k)
    | false, false => none
  ((List.range 24).findSome? attempt).getD (d.mantissa, d.exponent)

/-- Positional for magnitudes from `10^-5` to below `10^16`, always with a point; elsewhere one
digit before the point and an exponent with its sign. -/
def render (d : Double) : String :=
  let sign := if d.negative then "-" else ""
  if d.mantissa = 0 then sign ++ "0.0" else
  let (digits, k) := d.shortest
  let text := (toString digits).toList
  let point : Int := text.length + k
  let cut (cs : List Char) : String := String.ofList cs
  sign ++
    if 0 ≤ k && point ≤ 16 then cut (text ++ List.replicate k.toNat '0') ++ ".0"
    else if 0 < point && point ≤ 16 then
      cut (text.take point.toNat) ++ "." ++ cut (text.drop point.toNat)
    else if -5 < point && point ≤ 0 then
      "0." ++ cut (List.replicate (-point).toNat '0') ++ cut text
    else
      let fraction := if text.length = 1 then "" else "." ++ cut (text.drop 1)
      let mark := if 0 < point then "e+" else "e"
      cut (text.take 1) ++ fraction ++ mark ++ toString (point - 1)

end Double
end FormSchema
