import DocQuery.Json
import DocQuery.Double.Layout
import DocQuery.Encoding.Hex

/-
  JSON text without blanks. Only quotes, backslashes and control characters are escaped in
  strings, so a printed value stands on one line.
-/

namespace DocQuery.Json

/-- One character inside a string. -/
def escapeChar (c : Char) : List Char :=
  if c = '\x22' then ['\\', '\x22']
  else if c = '\\' then ['\\', '\\']
  else if c = '\x08' then ['\\', 'b']
  else if c = '\x0c' then ['\\', 'f']
  else if c = '\n' then ['\\', 'n']
  else if c = '\r' then ['\\', 'r']
  else if c = '\t' then ['\\', 't']
  else if c.toNat < 32 then
    ['\\', 'u', '0', '0', Encoding.hexDigit (c.toNat / 16), Encoding.hexDigit (c.toNat % 16)]
  else [c]

/-- A string in quotes. -/
def printString (s : String) : List Char := '\x22' :: s.toList.flatMap escapeChar ++ ['\x22']

/-- An integer in base ten. -/
def printInt (n : Int) : List Char :=
  if n < 0 then '-' :: Nat.toDigits 10 n.natAbs else Nat.toDigits 10 n.natAbs

/-- A number; JSON has no form for those that are not finite. -/
def printDouble (x : Double) : List Char :=
  if x.isFinite then NumberLayout.json.text x else "null".toList

mutual

/-- The text of a value. -/
def print : Json → List Char
  | null => "null".toList
  | bool true => "true".toList
  | bool false => "false".toList
  | int n => printInt n
  | double x => printDouble x
  | string s => printString s
  | array items => '[' :: printItems items ++ [']']
  | object members => '\x7b' :: printMembers members ++ ['\x7d']

/-- Items with commas between them. -/
def printItems : List Json → List Char
  | [] => []
  | [j] => print j
  | j :: rest => print j ++ ',' :: printItems rest

/-- Members with commas between them. -/
def printMembers : List (String × Json) → List Char
  | [] => []
  | [(k, j)] => printString k ++ ':' :: print j
  | (k, j) :: rest => printString k ++ ':' :: print j ++ ',' :: printMembers rest

end

/-- The text of a value as a string. -/
def text (j : Json) : String := String.ofList (print j)

end DocQuery.Json
