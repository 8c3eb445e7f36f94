import DocQuery.Double

/-
  The shortest decimal that reads back: of all decimals inside the interval of reals that round
  to a number, those with the fewest digits, and of these the nearest to the number. The search
  tries one digit, two digits, and so on; on each grid only the two neighbours of the number can
  be nearest, so only they are tested. Where both are equally near, the caller's choice decides.
-/

namespace DocQuery

/-- A decimal `digits * 10^exponent`. -/
structure Decimal where
  digits : Nat
  exponent : Int
deriving DecidableEq

/-- Which of two equally near neighbours on a grid is taken. -/
inductive Tie where
  | toEven
  | up
deriving DecidableEq

namespace Tie

/-- Whether a number half way between `c` and `c + 1` goes to `c`. -/
def takesLower (tie : Tie) (c : Nat) : Bool := tie = .toEven && c % 2 = 0

end Tie

namespace Double

/-- Compares `c * 10^k` with `a * 2^q`. -/
def compareDecimal (c : Nat) (k : Int) (a : Nat) (q : Int) : Ordering :=
  compare (c * tenTo k.toNat * twoTo (-q).toNat) (a * twoTo q.toNat * tenTo (-k).toNat)

/-- The interval of reals that round to `x`, in units of `2^q`: its ends, and whether they
belong to it. Below a power of two the neighbour is only half as far away. -/
def roundingInterval (x : Double) : Nat × Nat × Int × Bool :=
  let (m, q) := x.parts
  let lower := if m = leadingBit && q > -1074 then 4 * m - 1 else 4 * m - 2
  (lower, 4 * m + 2, q - 2, m % 2 = 0)

/-- Whether `c * 10^k` rounds to `x`. -/
def roundsTo (x : Double) (c : Nat) (k : Int) : Bool :=
  let (low, high, q, closed) := x.roundingInterval
  let below := compareDecimal c k low q
  let above := compareDecimal c k high q
  (below == .gt || closed && below == .eq) && (above == .lt || closed && above == .eq)

/-- The whole number of units of `10^k` in `x`. -/
def floorUnits (x : Double) (k : Int) : Nat :=
  let (m, q) := x.parts
  m * twoTo q.toNat * tenTo (-k).toNat / (tenTo k.toNat * twoTo (-q).toNat)

/-- The exponent of the leading decimal digit, found from the binary one. -/
def leadingExponent (x : Double) : Int :=
  let (m, q) := x.parts
  let guess : Int := ((Nat.log2 m : Int) + q) * 1233 / 4096
  if compareDecimal 1 (guess + 1) m q != .gt then guess + 1
  else if compareDecimal 1 guess m q != .gt then guess
  else guess - 1

/-- Of the two neighbours of `x` on the grid of `10^k`, the one that reads back; of two, the
nearer one. -/
def nearestOnGrid? (tie : Tie) (x : Double) (k : Int) : Option Nat :=
  let c := x.floorUnits k
  match x.roundsTo c k, x.roundsTo (c + 1) k with
  | true, false => some c
  | false, true => some (c + 1)
  | false, false => none
  | true, true =>
    let (m, q) := x.parts
    match compareDecimal (2 * c + 1) k (2 * m) q with
    | .gt => some c
    | .lt => some (c + 1)
    | .eq => some (if tie.takesLower c then c else c + 1)

/-- Moves trailing zeros into the exponent. -/
def trimZeros : Nat → Decimal → Decimal
  | 0, d => d
  | fuel + 1, d => if d.digits % 10 = 0 then trimZeros fuel ⟨d.digits / 10, d.exponent + 1⟩ else d

/-- The search from `n` digits on; seventeen always suffice. -/
def shortestFrom (tie : Tie) (x : Double) (lead : Int) : List Nat → Decimal
  | [] => ⟨x.floorUnits (lead - 16), lead - 16⟩
  | n :: rest =>
    let k := lead - (n : Int)
    match x.nearestOnGrid? tie k with
    | some c => trimZeros 18 ⟨c, k⟩
    | none => shortestFrom tie x lead rest

/-- The shortest decimal that reads back as a finite number; zero is `0 * 10^0`. The sign is
left out. -/
def shortest (tie : Tie) (x : Double) : Decimal :=
  if x.magnitude = 0 then ⟨0, 0⟩ else shortestFrom tie x x.leadingExponent (List.range 17)

end Double
end DocQuery
