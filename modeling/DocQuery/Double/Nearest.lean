import DocQuery.Double

/-
  Rounding to binary64: the double nearest to a fraction, a half going to the even neighbour.
  Integers, products, quotients and decimals all go through it.
-/

namespace DocQuery.Double

/-- `n / d` rounded to the nearest natural number, a half to the even one. -/
def divHalfEven (n d : Nat) : Nat :=
  let m := n / d
  let r := n % d
  if 2 * r > d || (2 * r = d && m % 2 = 1) then m + 1 else m

/-- `n / d` as a whole number of units of `2^q`, rounded. -/
def unitsOf (n d : Nat) (q : Int) : Nat :=
  if 0 ≤ q then divHalfEven n (d * twoTo q.toNat) else divHalfEven (n * twoTo (-q).toNat) d

/-- Whether `n / d` has at least `2^52` units of `2^q`. -/
def fillsUnit (n d : Nat) (q : Int) : Bool :=
  if 0 ≤ q then d * twoTo q.toNat * leadingBit ≤ n else d * leadingBit ≤ n * twoTo (-q).toNat

/-- The magnitude nearest to `n / d`; at or past the end of the range it is infinity. -/
def nearestMagnitude (n d : Nat) : Nat :=
  if n = 0 then 0 else
    let top : Int := (Nat.log2 n : Int) - (Nat.log2 d : Int) - 52
    let q := if fillsUnit n d top then top else top - 1
    let q := max q (-1074)
    min ((q + 1074).toNat * leadingBit + unitsOf n d q) infinityMagnitude

/-- The double nearest to `n / d`. -/
def ofFraction (negative : Bool) (n d : Nat) : Double := ofMagnitude negative (nearestMagnitude n d)

/-- The double nearest to an integer. -/
def ofInt (i : Int) : Double := ofFraction (i < 0) i.natAbs 1

/-- The rounded product of two finite numbers that are not negative. -/
def mulRounded (x y : Double) : Double :=
  let (a, b) := x.fraction
  let (c, d) := y.fraction
  ofFraction false (a * c) (b * d)

/-- The rounded quotient of two finite numbers that are not negative, the second not zero. -/
def divRounded (x y : Double) : Double :=
  let (a, b) := x.fraction
  let (c, d) := y.fraction
  ofFraction false (a * d) (b * c)

/-- The double nearest to `n * 10^e`. Exponents past the range on either side are cut first, so
that the powers stay small. -/
def ofDecimal (negative : Bool) (n : Nat) (e : Int) : Double :=
  let digits : Int := Nat.log2 n
  if n = 0 then zero negative
  else if e > 400 then infinity negative
  else if e + digits < -400 then zero negative
  else if 0 ≤ e then ofFraction negative (n * tenTo e.toNat) 1
  else ofFraction negative n (tenTo (-e).toNat)

end DocQuery.Double
