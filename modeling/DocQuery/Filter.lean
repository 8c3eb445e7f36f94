import DocQuery.FieldPath
import DocQuery.Value.Equality
import DocQuery.Value.Order

/-
  Filters as trees, and which documents they match.
-/

namespace DocQuery

/-- The operators that compare a field with one value. -/
inductive FilterOp where
  | eq
  | ne
  | gt
  | gte
  | lt
  | lte
deriving DecidableEq

/-- A filter after parsing. -/
inductive Filter where
  | all
  | and (parts : List Filter)
  | or (parts : List Filter)
  | not (part : Filter)
  | present (path : String) (expected : Bool)
  | among (path : String) (values : List Value)
  | notAmong (path : String) (values : List Value)
  | compare (path : String) (op : FilterOp) (value : Value)

namespace FilterOp

/-- Whether what a path leads to stands in relation to an operand. Nothing is in no relation but
inequality; values of different classes are unequal and not ordered. -/
def holds (op : FilterOp) (found : Option Value) (operand : Value) : Bool :=
  match op, found with
  | ne, none => true
  | _, none => false
  | eq, some v => v.alike operand
  | ne, some v => !v.alike operand
  | gt, some v => v.compare? operand == some .gt
  | gte, some v => v.compare? operand == some .gt || v.compare? operand == some .eq
  | lt, some v => v.compare? operand == some .lt
  | lte, some v => v.compare? operand == some .lt || v.compare? operand == some .eq

end FilterOp

namespace Filter

/-- Whether what a path leads to is a value alike to one of several. -/
def isAmong (found : Option Value) (values : List Value) : Bool :=
  match found with
  | some v => values.any fun x => v.alike x
  | none => false

mutual

/-- Whether a document matches a filter. -/
def eval (d : Document) : Filter → Bool
  | all => true
  | and parts => evalAll d parts
  | or parts => evalAny d parts
  | not part => !eval d part
  | present path expected => (FieldPath.find? d path).isSome == expected
  | among path values => isAmong (FieldPath.find? d path) values
  | notAmong path values => !isAmong (FieldPath.find? d path) values
  | compare path op value => op.holds (FieldPath.find? d path) value

def evalAll (d : Document) : List Filter → Bool
  | [] => true
  | f :: rest => eval d f && evalAll d rest

def evalAny (d : Document) : List Filter → Bool
  | [] => false
  | f :: rest => eval d f || evalAny d rest

end

theorem evalAll_eq (d : Document) (fs : List Filter) : evalAll d fs = fs.all (eval d) := by
  induction fs with
  | nil => rfl
  | cons f fs ih => simp [evalAll, ih]

theorem evalAny_eq (d : Document) (fs : List Filter) : evalAny d fs = fs.any (eval d) := by
  induction fs with
  | nil => rfl
  | cons f fs ih => simp [evalAny, ih]

mutual

/-- The height of a tree. -/
def height : Filter → Nat
  | and parts => heightList parts + 1
  | or parts => heightList parts + 1
  | not part => height part + 1
  | _ => 1

def heightList : List Filter → Nat
  | [] => 0
  | f :: rest => max (height f) (heightList rest)

end

end Filter
end DocQuery
