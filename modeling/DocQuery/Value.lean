import DocQuery.Keyed
import DocQuery.Double.Nearest

/-
  Document values. A document is an ordered map from field names to values, an array a list of
  values; the other kinds are leaves, apart from code that carries a scope.
-/

namespace DocQuery

/-- Twelve bytes that identify a document. -/
structure ObjectId where
  bytes : List UInt8
  size_eq : bytes.length = 12
deriving DecidableEq

/-- The identifiers of consecutive numbers: the twelve lowest bytes of each, the highest first. -/
def ObjectId.numbered (first n : Nat) : ObjectId :=
  ⟨(List.range 12).map fun i => UInt8.ofNat ((first + n) / twoTo (8 * (11 - i))), by simp⟩

instance : Inhabited ObjectId := ⟨.numbered 0 0⟩

/-- A value of a document. Decimal numbers of 128 bits and the pointers to documents of other
databases, which the format also has, are left out. -/
inductive Value where
  | null
  | bool (b : Bool)
  | int32 (n : Int32)
  | int64 (n : Int64)
  | double (x : Double)
  | string (s : String)
  | array (items : List Value)
  | document (fields : List (String × Value))
  | objectId (id : ObjectId)
  /-- Milliseconds since the start of 1970. -/
  | dateTime (millis : Int64)
  | timestamp (time increment : UInt32)
  | binary (subtype : UInt8) (bytes : List UInt8)
  | regex (pattern options : String)
  | symbol (s : String)
  | code (text : String)
  | scopedCode (text : String) (scope : List (String × Value))
  | undefined
  | minKey
  | maxKey
deriving Inhabited

/-- A document: its fields in order. -/
abbrev Document := Keyed String Value

namespace Value

/-- The value as an integer of either width. -/
def toInt? : Value → Option Int
  | int32 n => some n.toInt
  | int64 n => some n.toInt
  | _ => none

/-- The value as a number; an integer goes to the nearest double. -/
def toDouble? : Value → Option Double
  | int32 n => some (Double.ofInt n.toInt)
  | int64 n => some (Double.ofInt n.toInt)
  | double x => some x
  | _ => none

/-- The fields of a document value. -/
def fields? : Value → Option Document
  | document fields => some fields
  | _ => none

mutual

/-- Whether no document inside the value uses a field name twice. -/
def WellFormed : Value → Prop
  | array items => WellFormedItems items
  | document fields => (Keyed.keys fields).Nodup ∧ WellFormedFields fields
  | scopedCode _ scope => (Keyed.keys scope).Nodup ∧ WellFormedFields scope
  | _ => True

def WellFormedItems : List Value → Prop
  | [] => True
  | v :: rest => WellFormed v ∧ WellFormedItems rest

def WellFormedFields : List (String × Value) → Prop
  | [] => True
  | (_, v) :: rest => WellFormed v ∧ WellFormedFields rest

end

end Value
end DocQuery
