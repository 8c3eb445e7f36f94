import DocQuery.Filter

/-
  Filters from filter documents. Keys that begin with a dollar sign are operators; any other key is
  a field path, and its value is an operator document, an array of operator documents, or a value
  to be equal to. The first thing that is malformed decides the error.
-/

namespace DocQuery

/-- What can be wrong with a filter document. -/
inductive FilterError where
  | nestedTooDeeply
  | unknownTopLevel (key : String)
  | needsArray (key : String)
  | entryNotDocument (key : String)
  | unknownOperator (key : String)
  | notNeedsOperators
  | tooManyValues (key : String)
deriving DecidableEq

namespace Filter

def maxNesting : Nat := 32

/-- How many values a set may have. -/
def maxSetSize : Nat := 1000

end Filter

namespace FilterError

def message : FilterError → String
  | nestedTooDeeply => "filter nested too deeply"
  | unknownTopLevel key => "unknown top-level operator " ++ key
  | needsArray key => key ++ " requires an array"
  | entryNotDocument key => key ++ " entries must be documents"
  | unknownOperator key => "unknown operator " ++ key
  | notNeedsOperators => "$not requires an operator document"
  | tooManyValues key => key ++ " accepts at most " ++ toString Filter.maxSetSize ++ " values"

end FilterError

namespace Filter

/-- Whether a key is written like an operator. -/
def isOperatorKey (key : String) : Bool := key.toList.head? == some '$'

/-- A document all of whose keys are written like operators, and that has one. -/
def isOperatorDocument (fields : List (String × Value)) : Bool :=
  !fields.isEmpty && (Keyed.keys fields).all isOperatorKey

def isOperatorValue : Value → Bool
  | .document fields => isOperatorDocument fields
  | _ => false

/-- No clause matches all, one clause is itself, several are a conjunction. -/
def collapse : List Filter → Filter
  | [] => all
  | [f] => f
  | fs => and fs

/-- The truth of an operand: `false`, null, undefined and the zeros are false. -/
def truthy : Value → Bool
  | .bool b => b
  | .null => false
  | .undefined => false
  | v =>
    match v.toDouble? with
    | some x => !x.eq (Double.zero false)
    | none => true

/-- The values of a set operator. -/
def operandSet (op : String) : Value → Except FilterError (List Value)
  | .array items => if items.length ≤ maxSetSize then .ok items else .error (.tooManyValues op)
  | _ => .error (.needsArray op)

/-- The operators that take one operand and cannot fail. -/
def comparisonOf? : String → Option FilterOp
  | "$eq" => some .eq
  | "$ne" => some .ne
  | "$gt" => some .gt
  | "$gte" => some .gte
  | "$lt" => some .lt
  | "$lte" => some .lte
  | _ => none

/-- An operator on a field other than `$not`. -/
def simpleOperator (path op : String) (operand : Value) : Except FilterError Filter :=
  match comparisonOf? op with
  | some c => .ok (compare path c operand)
  | none =>
    if op = "$in" then (operandSet op operand).map (among path)
    else if op = "$nin" then (operandSet op operand).map (notAmong path)
    else if op = "$exists" then .ok (present path (truthy operand))
    else .error (.unknownOperator op)

/-- The operators of an operator document, one filter each. -/
def operators (path : String) : Nat → List (String × Value) → Except FilterError (List Filter)
  | _, [] => .ok []
  | depth, (op, operand) :: rest => do
    let f ←
      if op = "$not" then
        match operand with
        | .document inner =>
          if isOperatorDocument inner then
            if maxNesting < depth + 1 then .error .nestedTooDeeply
            else do
              let fs ← operators path (depth + 1) inner
              .ok (not (collapse fs))
          else .error .notNeedsOperators
        | _ => .error .notNeedsOperators
      else simpleOperator path op operand
    let fs ← operators path depth rest
    .ok (f :: fs)

/-- An operator document on a field. -/
def parseOperators (path : String) (depth : Nat) (fields : List (String × Value)) :
    Except FilterError Filter :=
  if maxNesting < depth then .error .nestedTooDeeply else (operators path depth fields).map collapse

/-- Several operator documents on one field. -/
def operatorDocuments (path : String) (depth : Nat) : List Value → Except FilterError (List Filter)
  | [] => .ok []
  | .document fields :: rest => do
    let f ← parseOperators path depth fields
    let fs ← operatorDocuments path depth rest
    .ok (f :: fs)
  | _ :: rest => operatorDocuments path depth rest

/-- What is asked of a field. -/
def parseField (path : String) (depth : Nat) (value : Value) : Except FilterError Filter :=
  match value with
  | .document fields =>
    if isOperatorDocument fields then parseOperators path depth fields
    else .ok (compare path .eq value)
  | .array items =>
    if !items.isEmpty && items.all isOperatorValue then
      (operatorDocuments path depth items).map and
    else .ok (compare path .eq value)
  | _ => .ok (compare path .eq value)

/-- The connective of a key at the top level of a filter document. -/
def connective? : String → Option (List Filter → Filter)
  | "$and" => some and
  | "$or" => some or
  | "$nor" => some fun fs => not (or fs)
  | _ => none

mutual

/-- The clauses of a filter document. -/
def clauses : Nat → List (String × Value) → Except FilterError (List Filter)
  | _, [] => .ok []
  | depth, (key, value) :: rest => do
    let f ← clause depth key value
    let fs ← clauses depth rest
    .ok (f :: fs)

/-- One clause of a filter document. -/
def clause : Nat → String → Value → Except FilterError Filter
  | depth, key, value =>
    match connective? key with
    | some connect =>
      match value with
      | .array items => (members depth key items).map connect
      | _ => .error (.needsArray key)
    | none =>
      if isOperatorKey key then .error (.unknownTopLevel key) else parseField key depth value

/-- The filter documents under a connective. -/
def members : Nat → String → List Value → Except FilterError (List Filter)
  | _, _, [] => .ok []
  | depth, key, item :: rest => do
    let f ←
      match item with
      | .document fields =>
        if maxNesting < depth + 1 then .error .nestedTooDeeply
        else (clauses (depth + 1) fields).map collapse
      | _ => .error (.entryNotDocument key)
    let fs ← members depth key rest
    .ok (f :: fs)

end

/-- A filter document so many levels deep. -/
def parseAt (depth : Nat) (d : Document) : Except FilterError Filter :=
  if maxNesting < depth then .error .nestedTooDeeply else (clauses depth d).map collapse

/-- The filter of a filter document. -/
def parse (d : Document) : Except FilterError Filter := parseAt 0 d

end Filter
end DocQuery
