import DocQuery.Value

/-
  Two equalities on values. `same` compares kind and content, field order aside; `alike` also
  compares numbers across their kinds, but only at the outermost level.
-/

namespace DocQuery.Value

mutual

/-- Equality of kind and content. Documents are compared as maps, doubles as numbers. -/
def same : Value → Value → Bool
  | null, null => true
  | bool a, bool b => a == b
  | int32 a, int32 b => a == b
  | int64 a, int64 b => a == b
  | double a, double b => a.eq b
  | string a, string b => a == b
  | array xs, array ys => sameItems xs ys
  | document xs, document ys => xs.length == ys.length && sameFields xs ys
  | objectId a, objectId b => a == b
  | dateTime a, dateTime b => a == b
  | timestamp t i, timestamp u j => t == u && i == j
  | binary s a, binary t b => s == t && a == b
  | regex p o, regex q r => p == q && o == r
  | symbol a, symbol b => a == b
  | code a, code b => a == b
  | scopedCode a xs, scopedCode b ys => a == b && (xs.length == ys.length && sameFields xs ys)
  | undefined, undefined => true
  | minKey, minKey => true
  | maxKey, maxKey => true
  | _, _ => false

/-- Equality of arrays, place by place. -/
def sameItems : List Value → List Value → Bool
  | [], [] => true
  | x :: xs, y :: ys => same x y && sameItems xs ys
  | _, _ => false

/-- Whether every field of the first document is in the second with the same value. -/
def sameFields : List (String × Value) → List (String × Value) → Bool
  | [], _ => true
  | (k, v) :: rest, ys =>
    (match Keyed.get? ys k with
      | some w => same v w
      | none => false) && sameFields rest ys

end

/-- Equality for queries: two numbers are equal if they stand for the same number, integers
exactly and an integer and a double as doubles; all else is `same`. -/
def alike (a b : Value) : Bool :=
  match a, b with
  | int32 x, int64 y => x.toInt == y.toInt
  | int64 x, int32 y => x.toInt == y.toInt
  | int32 x, double y => (Double.ofInt x.toInt).eq y
  | double x, int32 y => x.eq (Double.ofInt y.toInt)
  | int64 x, double y => (Double.ofInt x.toInt).eq y
  | double x, int64 y => x.eq (Double.ofInt y.toInt)
  | a, b => same a b

end DocQuery.Value
