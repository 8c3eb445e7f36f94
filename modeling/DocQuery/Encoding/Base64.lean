/-
  Bytes in base 64 with the standard alphabet. Three bytes are four characters; a shorter end is
  filled with equals signs, and the bits of its last character that belong to no byte are zero.
-/

namespace DocQuery.Encoding

/-- The character for a number below 64. -/
def base64Char (n : Nat) : Char :=
  if n < 26 then Char.ofNat (65 + n)
  else if n < 52 then Char.ofNat (71 + n)
  else if n < 62 then Char.ofNat (n - 4)
  else if n = 62 then '+'
  else '/'

/-- The number that a character of the alphabet stands for. -/
def base64Value? (c : Char) : Option Nat :=
  let n := c.toNat
  if 65 ≤ n && n ≤ 90 then some (n - 65)
  else if 97 ≤ n && n ≤ 122 then some (n - 71)
  else if 48 ≤ n && n ≤ 57 then some (n + 4)
  else if n = 43 then some 62
  else if n = 47 then some 63
  else none

/-- Writes bytes in groups of three. -/
def toBase64 : List UInt8 → List Char
  | [] => []
  | [a] =>
    let n := a.toNat
    [base64Char (n / 4), base64Char (n % 4 * 16), '=', '=']
  | [a, b] =>
    let n := a.toNat * 256 + b.toNat
    [base64Char (n / 1024), base64Char (n / 16 % 64), base64Char (n % 16 * 4), '=']
  | a :: b :: c :: rest =>
    let n := (a.toNat * 256 + b.toNat) * 256 + c.toNat
    base64Char (n / 262144) :: base64Char (n / 4096 % 64) :: base64Char (n / 64 % 64)
      :: base64Char (n % 64) :: toBase64 rest

/-- Reads groups of four characters; only the form that is written is accepted. -/
def ofBase64? : List Char → Option (List UInt8)
  | [] => some []
  | [p, q, '=', '='] =>
    match base64Value? p, base64Value? q with
    | some p, some q => if q % 16 = 0 then some [UInt8.ofNat (p * 4 + q / 16)] else none
    | _, _ => none
  | [p, q, r, '='] =>
    match base64Value? p, base64Value? q, base64Value? r with
    | some p, some q, some r =>
      let n := (p * 64 + q) * 16 + r / 4
      if r % 4 = 0 then some [UInt8.ofNat (n / 256), UInt8.ofNat (n % 256)] else none
    | _, _, _ => none
  | p :: q :: r :: s :: rest =>
    match base64Value? p, base64Value? q, base64Value? r, base64Value? s, ofBase64? rest with
    | some p, some q, some r, some s, some bytes =>
      let n := ((p * 64 + q) * 64 + r) * 64 + s
      some (UInt8.ofNat (n / 65536) :: UInt8.ofNat (n / 256 % 256) :: UInt8.ofNat (n % 256)
        :: bytes)
    | _, _, _, _, _ => none
  | _ => none

end DocQuery.Encoding
