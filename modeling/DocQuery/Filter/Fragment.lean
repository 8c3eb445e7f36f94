import DocQuery.Value

/-
  Fragments: small filter and update documents built from a field and its operands, and the two
  ways in which a fragment joins what is there already.
-/

namespace DocQuery

/-- What a clause asks of its field. -/
inductive Comparison where
  | equal
  | notEqual
  | greaterThan
  | lessThan
deriving DecidableEq

namespace Comparison

/-- The comparison of a negated clause. A range turns round instead of becoming a complement. -/
def negated : Comparison → Comparison
  | equal => notEqual
  | notEqual => equal
  | greaterThan => lessThan
  | lessThan => greaterThan

def resolve (c : Comparison) (negate : Bool) : Comparison := if negate then c.negated else c

/-- The operator that writes a comparison; plain equality needs none. -/
def tag? : Comparison → Option String
  | equal => none
  | notEqual => some "$ne"
  | greaterThan => some "$gt"
  | lessThan => some "$lt"

theorem negated_negated (c : Comparison) : c.negated.negated = c := by cases c <;> rfl

end Comparison

namespace Fragment

/-- The filter that compares one field with one value. -/
def compare (field : String) (c : Comparison) (value : Value) : Document :=
  match c.tag? with
  | none => [(field, value)]
  | some tag => [(field, .document [(tag, value)])]

/-- The filter that asks for one of several values: a disjunction of equalities, or, negated, a
list of inequalities that all have to hold. Without values the first matches nothing and the
second everything. -/
def membership (field : String) (values : List Value) (negate : Bool) : Document :=
  if negate then
    if values.isEmpty then []
    else [(field, .array (values.map fun v => .document [("$ne", v)]))]
  else [("$or", .array (values.map fun v => .document (compare field .equal v)))]

/-- Adds a clause to a filter. The first clause stands alone; later ones join it under `$and`,
and a filter that is nothing but an `$and` takes them in. -/
def conjoin (existing : Option Document) (fragment : Document) : Document :=
  match existing with
  | none => fragment
  | some [("$and", .array items)] => [("$and", .array (items ++ [.document fragment]))]
  | some prev => [("$and", .array [.document prev, .document fragment])]

/-- Adds an assignment to an update, under its `$set`. -/
def assign (existing : Option Document) (field : String) (value : Value) : Document :=
  let spec := existing.getD []
  match Keyed.get? spec "$set" with
  | some (.document assignments) =>
    Keyed.put spec "$set" (.document (Keyed.put assignments field value))
  | _ => Keyed.put spec "$set" (.document [(field, value)])

end Fragment
end DocQuery
