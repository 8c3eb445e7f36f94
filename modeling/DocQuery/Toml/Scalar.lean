import DocQuery.Toml
import DocQuery.Double.Nearest
import DocQuery.Encoding.Calendar
import DocQuery.Encoding.Hex

/-
  The unquoted values of a configuration document: truth values, integers, numbers with a fraction
  and dates.
-/

namespace DocQuery.Toml

/-- Digits with single underscores between them. -/
def plainDigits? (isDigit : Char → Bool) : List Char → Option (List Char)
  | [] => none
  | [c] => if isDigit c then some [c] else none
  | c :: '_' :: rest => if isDigit c then (plainDigits? isDigit rest).map (c :: ·) else none
  | c :: rest => if isDigit c then (plainDigits? isDigit rest).map (c :: ·) else none

/-- The value of digits in a base up to sixteen. -/
def valueIn (base : Nat) (digits : List Char) : Nat :=
  digits.foldl (fun n c => n * base + (Encoding.hexValue? c).getD 0) 0

def isHexDigit (c : Char) : Bool := (Encoding.hexValue? c).isSome

def isOctalDigit (c : Char) : Bool := '0' ≤ c && c ≤ '7'

def isBinaryDigit (c : Char) : Bool := c = '0' || c = '1'

/-- An integer has 128 bits, with or without a sign. -/
def integerInRange? (n : Int) : Option Toml :=
  if -0x80000000000000000000000000000000 ≤ n && n ≤ 0xffffffffffffffffffffffffffffffff then
    some (.integer n)
  else none

/-- Decimal digits without a needless leading zero. -/
def decimalDigits? (cs : List Char) : Option (List Char) :=
  match plainDigits? Char.isDigit cs with
  | some ('0' :: _ :: _) => none
  | digits => digits

def integer? : List Char → Option Toml
  | '0' :: 'x' :: cs => (plainDigits? isHexDigit cs).bind fun ds => integerInRange? (valueIn 16 ds)
  | '0' :: 'o' :: cs => (plainDigits? isOctalDigit cs).bind fun ds => integerInRange? (valueIn 8 ds)
  | '0' :: 'b' :: cs =>
    (plainDigits? isBinaryDigit cs).bind fun ds => integerInRange? (valueIn 2 ds)
  | '-' :: cs => (decimalDigits? cs).bind fun ds => integerInRange? (-(valueIn 10 ds : Int))
  | '+' :: cs => (decimalDigits? cs).bind fun ds => integerInRange? (valueIn 10 ds)
  | cs => (decimalDigits? cs).bind fun ds => integerInRange? (valueIn 10 ds)

def dropSign : List Char → List Char
  | '-' :: cs => cs
  | '+' :: cs => cs
  | cs => cs

/-- An exponent behind its mark. -/
def exponent? (cs : List Char) : Option Int :=
  (plainDigits? Char.isDigit (dropSign cs)).map fun ds =>
    if cs.head? = some '-' then -(valueIn 10 ds : Int) else valueIn 10 ds

def isFloatMark (c : Char) : Bool := c = '.' || c = 'e' || c = 'E'

/-- The digits of a fraction and an exponent, of which one at least is there. -/
def fractionAndExponent? : List Char → Option (List Char × Int)
  | '.' :: cs => do
    let fraction ← plainDigits? Char.isDigit (cs.takeWhile fun c => !isFloatMark c)
    match cs.dropWhile fun c => !isFloatMark c with
    | [] => some (fraction, 0)
    | '.' :: _ => none
    | _ :: cs => (exponent? cs).map fun e => (fraction, e)
  | _ :: cs => (exponent? cs).map fun e => ([], e)
  | [] => none

/-- A number with a fraction, an exponent or both, unless a double cannot hold it; or a word for
what is not finite. -/
def float? (cs : List Char) : Option Toml :=
  let body := dropSign cs
  if body = "inf".toList || body = "nan".toList then some (.float (String.ofList cs))
  else do
    let whole ← decimalDigits? (body.takeWhile fun c => !isFloatMark c)
    let (fraction, e) ← fractionAndExponent? (body.dropWhile fun c => !isFloatMark c)
    let x := Double.ofDecimal false (valueIn 10 (whole ++ fraction)) (e - fraction.length)
    if x.isInfinite then none else some (.float (String.ofList cs))

/-- The seconds of a time of day, with a fraction or without. Gives what follows them. -/
def seconds? (cs : List Char) : Option (Nat × List Char) := do
  let (second, cs) ← Encoding.takeDigits? 2 cs
  match cs with
  | '.' :: cs =>
    let rest := cs.dropWhile Char.isDigit
    if rest.length < cs.length then some (second, rest) else none
  | cs => some (second, cs)

/-- A time of day: hours, minutes, and perhaps seconds. Gives what follows it. -/
def timeOfDay? (cs : List Char) : Option (List Char) := do
  let (hour, cs) ← Encoding.takeDigits? 2 cs
  let cs ← Encoding.takeChar? ':' cs
  let (minute, cs) ← Encoding.takeDigits? 2 cs
  let (second, cs) ← match cs with
    | ':' :: cs => seconds? cs
    | cs => some (0, cs)
  if hour ≤ 23 && minute ≤ 59 && second ≤ 60 then some cs else none

/-- A date. Gives what follows it. -/
def date? (cs : List Char) : Option (List Char) := do
  let (year, cs) ← Encoding.takeDigits? 4 cs
  let cs ← Encoding.takeChar? '-' cs
  let (month, cs) ← Encoding.takeDigits? 2 cs
  let cs ← Encoding.takeChar? '-' cs
  let (day, cs) ← Encoding.takeDigits? 2 cs
  if 1 ≤ month && month ≤ 12 && 1 ≤ day && day ≤ Encoding.daysInMonth year month then some cs
  else none

/-- A date, a time of day, or both, with an offset only behind both. -/
def dateTime? (cs : List Char) : Option Toml :=
  let accepted :=
    match date? cs with
    | some [] => true
    | some (sep :: rest) =>
      (sep = 'T' || sep = 't' || sep = ' ') &&
        match timeOfDay? rest with
        | some [] => true
        | some offset => (Encoding.offsetMinutes? offset).isSome
        | none => false
    | none => timeOfDay? cs = some []
  if accepted then some (.dateTime (String.ofList cs)) else none

/-- An unquoted value. -/
def scalar? (cs : List Char) : Option Toml :=
  if cs = "true".toList then some (.boolean true)
  else if cs = "false".toList then some (.boolean false)
  else (integer? cs).orElse fun _ => (float? cs).orElse fun _ => dateTime? cs

end DocQuery.Toml
