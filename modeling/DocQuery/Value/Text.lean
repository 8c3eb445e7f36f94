import DocQuery.Value
import DocQuery.Double.Layout
import DocQuery.Encoding.Base64
import DocQuery.Encoding.Calendar
import DocQuery.Encoding.Hex
import DocQuery.Text.Quoted

/-
  Values as text for people: the plain form of messages, where a string is only put in quotes, and
  the labelled form of traces, which names the kind of every value.
-/

namespace DocQuery

def ObjectId.hex (id : ObjectId) : String := String.ofList (Encoding.toHex id.bytes)

namespace Value

/-- Texts with a separator between them. -/
def separated (sep : String) : List String → String
  | [] => ""
  | [s] => s
  | s :: rest => s ++ sep ++ separated sep rest

def inQuotes (s : String) : String := "\"" ++ s ++ "\""

def inParens (label s : String) : String := label ++ "(" ++ s ++ ")"

def inBraces (s : String) : String := "\x7b" ++ s ++ "\x7d"

/-- The plain form of a document, from the texts of its fields. -/
def plainDocument (fields : List String) : String :=
  if fields.isEmpty then inBraces "" else inBraces (" " ++ separated ", " fields ++ " ")

mutual

/-- The plain form. -/
def plainText : Value → String
  | null => "null"
  | bool b => if b then "true" else "false"
  | int32 n => toString n.toInt
  | int64 n => toString n.toInt
  | double x => String.ofList (NumberLayout.plain.text x)
  | string s => inQuotes s
  | array items => "[" ++ separated ", " (plainItems items) ++ "]"
  | document fields => plainDocument (plainFields fields)
  | objectId id => inParens "ObjectId" (inQuotes id.hex)
  | dateTime ms => inParens "DateTime" (inQuotes (String.ofList (Encoding.timestampText ms.toInt)))
  | timestamp t i => inParens "Timestamp" (toString t.toNat ++ ", " ++ toString i.toNat)
  | binary subtype bytes =>
    inParens "Binary" ("0x" ++ String.ofList (Text.hexDigits subtype.toNat) ++ ", "
      ++ String.ofList (Encoding.toBase64 bytes))
  | regex pattern options => "/" ++ pattern ++ "/" ++ options
  | symbol s => inParens "Symbol" (inQuotes s)
  | code text => text
  | scopedCode text _ => text
  | undefined => "undefined"
  | minKey => "MinKey"
  | maxKey => "MaxKey"

def plainItems : List Value → List String
  | [] => []
  | v :: rest => plainText v :: plainItems rest

def plainFields : List (String × Value) → List String
  | [] => []
  | (k, v) :: rest => (inQuotes k ++ ": " ++ plainText v) :: plainFields rest

end

/-- The name of a binary subtype. -/
def subtypeName (n : UInt8) : String :=
  match n.toNat with
  | 0 => "Generic"
  | 1 => "Function"
  | 2 => "BinaryOld"
  | 3 => "UuidOld"
  | 4 => "Uuid"
  | 5 => "Md5"
  | 6 => "Encrypted"
  | 7 => "Column"
  | 8 => "Sensitive"
  | 9 => "Vector"
  | n => inParens (if n < 128 then "Reserved" else "UserDefined") (toString n)

/-- The labelled form of a document, from the texts of its fields. -/
def labelledFieldsText (fields : List String) : String :=
  inParens "Document" (inBraces (separated ", " fields))

mutual

/-- The labelled form. -/
def labelledText : Value → String
  | null => "Null"
  | bool b => inParens "Boolean" (if b then "true" else "false")
  | int32 n => inParens "Int32" (toString n.toInt)
  | int64 n => inParens "Int64" (toString n.toInt)
  | double x => inParens "Double" (String.ofList (NumberLayout.trace.text x))
  | string s => inParens "String" (Text.quoted s)
  | array items => inParens "Array" ("[" ++ separated ", " (labelledItems items) ++ "]")
  | document fields => labelledFieldsText (labelledFields fields)
  | objectId id => inParens "ObjectId" (inQuotes id.hex)
  | dateTime ms => inParens "DateTime" (String.ofList (Encoding.timestampText ms.toInt))
  | timestamp t i =>
    "Timestamp " ++ inBraces (" time: " ++ toString t.toNat
      ++ ", increment: " ++ toString i.toNat ++ " ")
  | binary subtype bytes =>
    "Binary " ++ inBraces (" subtype: " ++ subtypeName subtype ++ ", bytes: ["
      ++ separated ", " (bytes.map fun b => toString b.toNat) ++ "] ")
  | regex pattern options =>
    "Regex " ++ inBraces (" pattern: " ++ Text.quoted pattern
      ++ ", options: " ++ Text.quoted options ++ " ")
  | symbol s => inParens "Symbol" (Text.quoted s)
  | code text => inParens "JavaScriptCode" (Text.quoted text)
  | scopedCode text scope =>
    "JavaScriptCodeWithScope " ++ inBraces (" code: " ++ Text.quoted text ++ ", scope: "
      ++ labelledFieldsText (labelledFields scope) ++ " ")
  | undefined => "Undefined"
  | minKey => "MinKey"
  | maxKey => "MaxKey"

def labelledItems : List Value → List String
  | [] => []
  | v :: rest => labelledText v :: labelledItems rest

def labelledFields : List (String × Value) → List String
  | [] => []
  | (k, v) :: rest => (Text.quoted k ++ ": " ++ labelledText v) :: labelledFields rest

end

/-- The labelled form of a document. -/
def labelledDocument (d : Document) : String := labelledText (document d)

end Value
end DocQuery
