import DocQuery.Double.Shortest

/-
  How the digits of a number are laid out as text: positionally or with an exponent. A layout is
  one record; the three that the library writes stand at the end.
-/

namespace DocQuery

/-- The choices that turn digits into text. -/
structure NumberLayout where
  tie : Tie
  /-- The exponents of the leading digit that are written positionally. -/
  positional : Int → Bool
  /-- Whether a whole number written positionally ends in `.0`. -/
  wholeMark : Bool
  /-- Whether a positive exponent has a sign. -/
  exponentPlus : Bool
  nanText : String
  infinityText : String

namespace Decimal

/-- The digits as characters, most significant first. -/
def chars (d : Decimal) : List Char := Nat.toDigits 10 d.digits

/-- The exponent of the leading digit. -/
def lead (d : Decimal) : Int := d.exponent + d.chars.length - 1

/-- The digits around a decimal point, with zeros filled in on either side. -/
def positionalText (wholeMark : Bool) (d : Decimal) : List Char :=
  let digits := d.chars
  if 0 ≤ d.exponent then
    digits ++ List.replicate d.exponent.toNat '0' ++ (if wholeMark then ['.', '0'] else [])
  else if 0 ≤ d.lead then
    let whole := d.lead.toNat + 1
    digits.take whole ++ '.' :: digits.drop whole
  else '0' :: '.' :: List.replicate ((-d.lead).toNat - 1) '0' ++ digits

/-- One digit, the others behind a point, and the exponent. -/
def exponentText (plus : Bool) (d : Decimal) : List Char :=
  let mantissa := match d.chars with
    | [] => []
    | [c] => [c]
    | c :: rest => c :: '.' :: rest
  let exponent := if d.lead < 0 then '-' :: Nat.toDigits 10 d.lead.natAbs
    else (if plus then ['+'] else []) ++ Nat.toDigits 10 d.lead.natAbs
  mantissa ++ 'e' :: exponent

end Decimal

namespace NumberLayout

/-- The text of a number. A negative zero keeps its sign, a NaN has none. -/
def text (layout : NumberLayout) (x : Double) : List Char :=
  if x.isNaN then layout.nanText.toList
  else
    let d := x.shortest layout.tie
    let body := if x.isInfinite then layout.infinityText.toList
      else if layout.positional d.lead then d.positionalText layout.wholeMark
      else d.exponentText layout.exponentPlus
    if x.isNegative then '-' :: body else body

/-- Numbers in documents: positional from `1e-5` up to below `1e16`, and always marked as not
whole integers by a point or an exponent; a tie goes to the even digit. A number that is not finite
has no form of its own. -/
def json : NumberLayout := ⟨.toEven, fun e => -5 ≤ e && e < 16, true, true, "null", "null"⟩

/-- Numbers in messages: positional throughout, whole numbers without a point; a tie goes up. -/
def plain : NumberLayout := ⟨.up, fun _ => true, false, false, "NaN", "inf"⟩

/-- Numbers in traces: positional from `1e-4` up to below `1e16`; a tie goes up. -/
def trace : NumberLayout := ⟨.up, fun e => -4 ≤ e && e < 16, true, false, "NaN", "inf"⟩

end NumberLayout
end DocQuery
