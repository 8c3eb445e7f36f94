import DocQuery.Value
import DocQuery.Json.Number
import DocQuery.Encoding.Base64
import DocQuery.Encoding.Calendar
import DocQuery.Encoding.Hex

/-
  Reading the bodies of objects that stand for a single value: numbers in text, identifiers, bytes,
  points in time.
-/

namespace DocQuery.ExtendedJson

/-- Splits a sign off the front. -/
def splitSign : List Char → Bool × List Char
  | '-' :: cs => (true, cs)
  | '+' :: cs => (false, cs)
  | cs => (false, cs)

/-- An integer in base ten, with an optional sign. -/
def integer? (s : String) : Option Int :=
  let (negative, digits) := splitSign s.toList
  if digits.isEmpty || !digits.all Char.isDigit then none
  else some (if negative then -(Json.decimalValue digits : Int) else Json.decimalValue digits)

def int32Value? (n : Int) : Option Value :=
  if -2147483648 ≤ n && n ≤ 2147483647 then some (.int32 (Int32.ofInt n)) else none

def int64? (n : Int) : Option Int64 :=
  if -9223372036854775808 ≤ n && n ≤ 9223372036854775807 then some (Int64.ofInt n) else none

/-- An integer of a JSON text. One that is not negative takes the smaller width that holds it; a
negative one is always wide. -/
def integerValue? (n : Int) : Option Value :=
  if n < 0 then (int64? n).map .int64
  else if n ≤ 2147483647 then some (.int32 (Int32.ofInt n))
  else (int64? n).map .int64

/-- A decimal number, or one of the words for what is not finite, in any case. -/
def double? (s : String) : Option Double :=
  let (negative, cs) := splitSign s.toList
  let word := cs.map Char.toLower
  if word = "nan".toList then some (if negative then Double.nan.neg else Double.nan)
  else if word = "inf".toList || word = "infinity".toList then some (Double.infinity negative)
  else
    let whole := Json.digitsOf cs
    let (fraction, cs) := match Json.dropDigits cs with
      | '.' :: cs => (Json.digitsOf cs, Json.dropDigits cs)
      | cs => ([], cs)
    if whole.isEmpty && fraction.isEmpty then none
    else
      let n := Json.decimalValue (whole ++ fraction)
      let scale : Int := fraction.length
      match cs with
      | [] => some (Double.ofDecimal negative n (-scale))
      | e :: cs =>
        let (down, digits) := splitSign cs
        if (e = 'e' || e = 'E') && !digits.isEmpty && digits.all Char.isDigit then
          let size : Int := Json.decimalValue digits
          some (Double.ofDecimal negative n ((if down then -size else size) - scale))
        else none

def objectId? (s : String) : Option ObjectId :=
  match Encoding.ofHex? s.toList with
  | some bytes => if h : bytes.length = 12 then some ⟨bytes, h⟩ else none
  | none => none

/-- Sixteen bytes as 32 digits, or as groups of 8, 4, 4, 4 and 12 digits between hyphens, these
also in braces or behind `urn:uuid:` in any case. -/
def uuid? (s : String) : Option (List UInt8) :=
  let grouped (cs : List Char) : Option (List UInt8) :=
    if (cs.drop 8).head? = some '-' && (cs.drop 13).head? = some '-'
        && (cs.drop 18).head? = some '-' && (cs.drop 23).head? = some '-' then
      Encoding.ofHex? (cs.take 8 ++ (cs.drop 9).take 4 ++ (cs.drop 14).take 4
        ++ (cs.drop 19).take 4 ++ cs.drop 24)
    else none
  let cs := s.toList
  if cs.length = 32 then Encoding.ofHex? cs
  else if cs.length = 36 then grouped cs
  else if cs.length = 38 && cs.head? = some '\x7b' && cs.getLast? = some '\x7d' then
    grouped ((cs.drop 1).take 36)
  else if cs.length = 45 && (cs.take 9).map Char.toLower = "urn:uuid:".toList then
    grouped (cs.drop 9)
  else none

/-- The fields of a body, in the order of the names asked for: an object with just these names,
or an array of as many items. -/
def body? (names : List String) : Json → Option (List Json)
  | .object members =>
    if members.length = names.length then names.mapM fun name => Keyed.get? members name else none
  | .array items => if items.length = names.length then some items else none
  | _ => none

def dateTime? (j : Json) : Option Value :=
  match j with
  | .string s => do
    let n ← Encoding.millisOfTimestamp? s.toList
    (int64? n).map .dateTime
  | .int n => (int64? n).map .dateTime
  | j =>
    match body? ["$numberLong"] j with
    | some [.string s] => do
      let n ← integer? s
      (int64? n).map .dateTime
    | _ => none

/-- Reads a body of two names. -/
def pair? (first second : String) (read : Json → Json → Option Value) (j : Json) : Option Value :=
  match body? [first, second] j with
  | some [a, b] => read a b
  | _ => none

def timestamp? : Json → Option Value :=
  pair? "t" "i" fun
    | .int t, .int i =>
      if 0 ≤ t && t < 4294967296 && 0 ≤ i && i < 4294967296 then
        some (.timestamp (UInt32.ofNat t.toNat) (UInt32.ofNat i.toNat))
      else none
    | _, _ => none

def binary? : Json → Option Value :=
  pair? "base64" "subType" fun
    | .string text, .string subtype =>
      match Encoding.ofBase64? text.toList, Encoding.ofHex? subtype.toList with
      | some bytes, some [n] => some (.binary n bytes)
      | _, _ => none
    | _, _ => none

/-- Options are kept sorted; neither text may hold a zero character. -/
def regex? : Json → Option Value :=
  pair? "pattern" "options" fun
    | .string pattern, .string options =>
      if pattern.toList.contains '\x00' || options.toList.contains '\x00' then none
      else
        let sorted := options.toList.mergeSort fun a b => a.toNat ≤ b.toNat
        some (.regex pattern (String.ofList sorted))
    | _, _ => none

/-- The value of an object whose only key is one of the reserved names; `none` if the name is not
reserved, and `some none` if its body is refused. There are no values for `$dbPointer`,
`$numberDecimal` and `$numberDecimalBytes`, so each of their bodies is refused, also one that stands
for a pointer or a decimal number. -/
def scalar? (key : String) (j : Json) : Option (Option Value) :=
  match key with
  | "$oid" => some <| match j with
    | .string s => (objectId? s).map .objectId
    | _ => none
  | "$symbol" => some <| match j with
    | .string s => some (.symbol s)
    | _ => none
  | "$numberInt" => some <| match j with
    | .string s => (integer? s).bind int32Value?
    | _ => none
  | "$numberLong" => some <| match j with
    | .string s => ((integer? s).bind int64?).map .int64
    | _ => none
  | "$numberDouble" => some <| match j with
    | .string s => (double? s).map .double
    | _ => none
  | "$binary" => some (binary? j)
  | "$uuid" => some <| match j with
    | .string s => (uuid? s).map (.binary 4)
    | _ => none
  | "$timestamp" => some (timestamp? j)
  | "$regularExpression" => some (regex? j)
  | "$date" => some (dateTime? j)
  | "$maxKey" => some <| match j with
    | .int 1 => some .maxKey
    | _ => none
  | "$minKey" => some <| match j with
    | .int 1 => some .minKey
    | _ => none
  | "$undefined" => some <| match j with
    | .bool true => some .undefined
    | _ => none
  | "$dbPointer" => some none
  | "$numberDecimal" => some none
  | "$numberDecimalBytes" => some none
  | _ => none

end DocQuery.ExtendedJson
