/-
  Bytes as pairs of hexadecimal digits. Written in lower case, read in either.
-/

namespace DocQuery.Encoding

/-- The digit for a number below sixteen. -/
def hexDigit (n : Nat) : Char := if n < 10 then Char.ofNat (48 + n) else Char.ofNat (87 + n)

/-- The number that a hexadecimal digit stands for. -/
def hexValue? (c : Char) : Option Nat :=
  let n := c.toNat
  if 48 ≤ n && n ≤ 57 then some (n - 48)
  else if 97 ≤ n && n ≤ 102 then some (n - 87)
  else if 65 ≤ n && n ≤ 70 then some (n - 55)
  else none

def hexByte (b : UInt8) : List Char := [hexDigit (b.toNat / 16), hexDigit (b.toNat % 16)]

/-- Two digits per byte. -/
def toHex (bytes : List UInt8) : List Char := bytes.flatMap hexByte

/-- Bytes from pairs of digits; an odd digit or another character is refused. -/
def ofHex? : List Char → Option (List UInt8)
  | [] => some []
  | a :: b :: rest =>
    match hexValue? a, hexValue? b, ofHex? rest with
    | some h, some l, some bytes => some (UInt8.ofNat (16 * h + l) :: bytes)
    | _, _, _ => none
  | [_] => none

theorem hexValue?_hexDigit {n : Nat} (h : n < 16) : hexValue? (hexDigit n) = some n := by
  revert n; decide

theorem ofHex?_toHex (bytes : List UInt8) : ofHex? (toHex bytes) = some bytes := by
  induction bytes with
  | nil => rfl
  | cons b bytes ih =>
    have hi : b.toNat / 16 < 16 := by have := b.toNat_lt; omega
    have lo : b.toNat % 16 < 16 := by omega
    have hb : 16 * (b.toNat / 16) + b.toNat % 16 = b.toNat := by omega
    have ih' : ofHex? (List.flatMap hexByte bytes) = some bytes := ih
    simp [toHex, hexByte, ofHex?, hexValue?_hexDigit hi, hexValue?_hexDigit lo, ih', hb]

end DocQuery.Encoding
