import DocQuery.Json
import DocQuery.Double.Nearest

/-
  Numbers of a JSON text. An integer that fits 64 bits is kept as one; every other number becomes
  a double, from the digits that fit an unsigned 64-bit word and a power of ten, in two roundings:
  the word, then its product or quotient with the power.
-/

namespace DocQuery.Json

/-- The decimal digits at the front of a text. -/
def digitsOf (cs : List Char) : List Char := cs.takeWhile Char.isDigit

def dropDigits (cs : List Char) : List Char := cs.dropWhile Char.isDigit

/-- The number that decimal digits stand for. -/
def decimalValue (digits : List Char) : Nat := digits.foldl (fun n c => n * 10 + (c.toNat - 48)) 0

/-- The first number that does not fit an unsigned 64-bit word. -/
def wordLimit : Nat := 0x10000000000000000

/-- Collects digits while the number fits 64 bits; also gives the digits that are left out. -/
def significand : Nat → List Char → Nat × List Char
  | acc, [] => (acc, [])
  | acc, c :: rest =>
    let next := acc * 10 + (c.toNat - 48)
    if next < wordLimit then significand next rest else (acc, c :: rest)

/-- A word times a power of ten. Powers that are not doubles are divided away in steps of
`10^308`; a result past the range is refused. -/
def scaled? : Nat → Double → Int → Option Double
  | 0, _, _ => none
  | fuel + 1, x, e =>
    if e.natAbs ≤ 308 then
      let power := Double.ofInt (tenTo e.natAbs)
      if 0 ≤ e then
        let y := x.mulRounded power
        if y.isInfinite then none else some y
      else some (x.divRounded power)
    else if x.magnitude = 0 then some x
    else if 0 ≤ e then none
    else scaled? fuel (x.divRounded (Double.ofInt (tenTo 308))) (e + 308)

/-- A double from a sign, a word and an exponent of ten. -/
def doubleOf? (negative : Bool) (n : Nat) (e : Int) : Option Double :=
  (scaled? 4 (Double.ofInt n) e).map fun x => if negative then x.neg else x

/-- The largest exponent that is taken at its word. -/
def exponentLimit : Nat := 2147483647

/-- Reads what follows the digits of a number from an exponent mark on. An exponent past the
limit makes zero of a small number and is refused for a large one. -/
def readExponent (negative : Bool) (n : Nat) (e : Int) (cs : List Char) :
    Option (Json × List Char) :=
  let (down, cs) := match cs with
    | '+' :: cs => (false, cs)
    | '-' :: cs => (true, cs)
    | cs => (false, cs)
  let digits := digitsOf cs
  if digits.isEmpty then none
  else
    let size := decimalValue digits
    if exponentLimit < size then
      if n ≠ 0 && !down then none else some (double (Double.zero negative), dropDigits cs)
    else
      let total := if down then max (e - size) (-2147483648) else min (e + size) 2147483647
      (doubleOf? negative n total).map fun x => (double x, dropDigits cs)

/-- Reads a fraction after the point: digits count only while they fit the word. -/
def readFraction (negative : Bool) (n : Nat) (e : Int) (cs : List Char) :
    Option (Json × List Char) :=
  let digits := digitsOf cs
  if digits.isEmpty then none
  else
    let (n, left) := significand n digits
    let e := e - (digits.length - left.length : Nat)
    match dropDigits cs with
    | 'e' :: cs => readExponent negative n e cs
    | 'E' :: cs => readExponent negative n e cs
    | cs => (doubleOf? negative n e).map fun x => (double x, cs)

/-- Reads a number after its sign. A leading zero stands alone. -/
def readMagnitude (negative : Bool) (cs : List Char) : Option (Json × List Char) :=
  let digits := digitsOf cs
  match digits with
  | [] => none
  | '0' :: _ :: _ => none
  | _ =>
    let (n, left) := significand 0 digits
    let e : Int := left.length
    match dropDigits cs with
    | '.' :: cs => readFraction negative n e cs
    | 'e' :: cs => readExponent negative n e cs
    | 'E' :: cs => readExponent negative n e cs
    | cs =>
      if left.isEmpty && !negative then some (int n, cs)
      else if left.isEmpty && 0 < n && n ≤ wordLimit / 2 then some (int (-n), cs)
      else (doubleOf? negative n e).map fun x => (double x, cs)

end DocQuery.Json
