import DocQuery.Value
import DocQuery.Json.Printer
import DocQuery.Encoding.Base64
import DocQuery.Value.Text

/-
  Values as JSON. The kinds that JSON has are written as themselves, the others as objects whose
  first key begins with a dollar sign. Three things are not kept: the width of an integer, a number
  that is not finite, and that plain bytes are not an array.
-/

namespace DocQuery.Value

/-- An integer in base ten as text. -/
def decimalText (n : Int) : String := String.ofList (Json.printInt n)

mutual

/-- The JSON form of a value. -/
def toJson : Value → Json
  | null => .null
  | bool b => .bool b
  | int32 n => .int n.toInt
  | int64 n => .int n.toInt
  | double x => if x.isFinite then .double x else .null
  | string s => .string s
  | array items => .array (itemsToJson items)
  | document fields => .object (fieldsToJson fields)
  | objectId id => .object [("$oid", .string id.hex)]
  | dateTime ms => .object [("$date", .object [("$numberLong", .string (decimalText ms.toInt))])]
  | timestamp t i => .object [("$timestamp", .object [("t", .int t.toNat), ("i", .int i.toNat)])]
  | binary subtype bytes =>
    if subtype = 0 then .array (bytes.map fun b => .int b.toNat)
    else .object [("$binary", .object
      [("base64", .string (String.ofList (Encoding.toBase64 bytes))),
       ("subType", .string (String.ofList (Encoding.hexByte subtype)))])]
  | regex pattern options => .object [("$regularExpression", .object
      [("pattern", .string pattern), ("options", .string options)])]
  | symbol s => .object [("$symbol", .string s)]
  | code text => .object [("$code", .string text)]
  | scopedCode text scope =>
    .object [("$code", .string text), ("$scope", .object (fieldsToJson scope))]
  | undefined => .object [("$undefined", .bool true)]
  | minKey => .object [("$minKey", .int 1)]
  | maxKey => .object [("$maxKey", .int 1)]

def itemsToJson : List Value → List Json
  | [] => []
  | v :: rest => toJson v :: itemsToJson rest

def fieldsToJson : List (String × Value) → List (String × Json)
  | [] => []
  | (k, v) :: rest => (k, toJson v) :: fieldsToJson rest

end

/-- The JSON text of a value. -/
def jsonText (v : Value) : String := v.toJson.text

/-- The JSON text of a document. -/
def documentText (d : Document) : String := jsonText (document d)

end DocQuery.Value
