import DocQuery.Value

/-
  The order of values. Numbers, strings, truth values and points in time are ordered among
  themselves; values of different classes, and all other values, are not ordered at all.
-/

namespace DocQuery.Value

/-- Compares two values of one class: integers exactly, other numbers as doubles, strings by
code points, `false` before `true`, points in time by their milliseconds. -/
def compare? (a b : Value) : Option Ordering :=
  match a.toInt?, b.toInt? with
  | some x, some y => some (compare x y)
  | _, _ =>
    match a.toDouble?, b.toDouble? with
    | some x, some y => x.compare? y
    | _, _ =>
      match a, b with
      | string s, string t => some (compare s t)
      | bool p, bool q => some (compare p q)
      | dateTime x, dateTime y => some (compare x.toInt y.toInt)
      | _, _ => none

end DocQuery.Value
