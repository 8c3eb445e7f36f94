import DocQuery.ExtendedJson.Scalar
import DocQuery.Json.Reader

/-
  Values from JSON. The keys of an object are taken one by one, and the first reserved one decides
  what the object is: what was read before it is dropped, and nothing may follow it. Only code and
  its scope come as a pair. An object without a reserved key is a document; a repeated name keeps
  its first place and its last value.
-/

namespace DocQuery.Value

mutual

/-- The value that a JSON value stands for. -/
def ofJson? : Json → Option Value
  | .null => some .null
  | .bool b => some (.bool b)
  | .int n => ExtendedJson.integerValue? n
  | .double x => some (.double x)
  | .string s => some (.string s)
  | .array items => (itemsOfJson? items).map .array
  | .object members => ofMembers? [] members

def itemsOfJson? : List Json → Option (List Value)
  | [] => some []
  | j :: rest =>
    match ofJson? j, itemsOfJson? rest with
    | some v, some vs => some (v :: vs)
    | _, _ => none

/-- The value of an object from its members, with the fields read so far. -/
def ofMembers? (fields : List (String × Value)) : List (String × Json) → Option Value
  | [] => some (.document fields)
  | (key, j) :: rest =>
    if key = "$code" then
      match j, rest with
      | .string text, [] => some (.code text)
      | .string text, [("$scope", .object members)] =>
        match ofMembers? [] members with
        | some (.document scope) => some (.scopedCode text scope)
        | _ => none
      | _, _ => none
    else if key = "$scope" then
      match j, rest with
      | .object members, [("$code", .string text)] =>
        match ofMembers? [] members with
        | some (.document scope) => some (.scopedCode text scope)
        | _ => none
      | _, _ => none
    else
      match ExtendedJson.scalar? key j with
      | some v => if rest.isEmpty then v else none
      | none =>
        match ofJson? j with
        | some v => ofMembers? (Keyed.put fields key v) rest
        | none => none

end

/-- The value of a JSON text. -/
def ofText? (s : String) : Option Value := (Json.ofText? s).bind ofJson?

/-- The items of a JSON text that is an array. -/
def itemsOfText? (s : String) : Option (List Value) :=
  match Json.ofText? s with
  | some (.array items) => itemsOfJson? items
  | _ => none

/-- The document of a JSON text: an object that stands for anything else is refused. -/
def documentOfText? (s : String) : Option Document :=
  match Json.ofText? s with
  | some (.object members) =>
    match ofMembers? [] members with
    | some (.document fields) => some fields
    | _ => none
  | _ => none

end DocQuery.Value
