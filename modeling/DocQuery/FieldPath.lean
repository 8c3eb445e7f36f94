import DocQuery.Value
import DocQuery.Text.Blank

/-
  Field paths: names separated by dots, each but the last leading into a nested document. The
  empty name is a name like any other.
-/

namespace DocQuery.FieldPath

/-- The names along a path; there is always at least one. -/
def segments (path : String) : List String := (Text.split '.' path.toList).map String.ofList

theorem segments_ne_nil (path : String) : segments path ≠ [] := by
  simp [segments, Text.split_ne_nil]

theorem segments_injective {path path' : String} (h : segments path = segments path') :
    path = path' := by
  have hsplit : Text.split '.' path.toList = Text.split '.' path'.toList :=
    (List.map_inj_right fun _ _ hsame => String.ofList_injective hsame).mp h
  have hjoin := congrArg (Text.join '.') hsplit
  rwa [Text.join_split, Text.join_split, String.toList_inj] at hjoin

/-- The value at the end of a list of names, by exact keys through nested documents. -/
def lookup (d : Document) : List String → Option Value
  | [] => none
  | [name] => Keyed.get? d name
  | name :: rest =>
    match Keyed.get? d name with
    | some (.document fields) => lookup fields rest
    | _ => none

/-- How many names a path may have in a query. -/
def maxSegments : Nat := 32

/-- The value that a query finds at a path. Longer paths than allowed lead nowhere. -/
def find? (d : Document) (path : String) : Option Value :=
  let names := segments path
  if names.length ≤ maxSegments then lookup d names else none

end DocQuery.FieldPath
