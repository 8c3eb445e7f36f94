import DocQuery.FieldPath
import DocQuery.Value.Equality

/-
  Updates: documents of `$set` and `$unset` operators, applied to a document field by field. An
  update that fails half-way leaves what it has done so far, so callers apply it to a copy.
-/

namespace DocQuery

/-- What can be wrong with an update. -/
inductive UpdateError where
  | empty
  | needsDocument (op : String)
  | tooManyFields (op : String)
  | idImmutable
  | unsupported (op : String)
  /-- A name along the path leads to something that is not a document. -/
  | notDocument (path name : String)
deriving DecidableEq

namespace Update

/-- How many fields one operator may touch. -/
def maxFields : Nat := 128

end Update

namespace UpdateError

def message : UpdateError → String
  | empty => "empty update document"
  | needsDocument op => op ++ " requires a document"
  | tooManyFields op => op ++ " touches more than " ++ toString Update.maxFields ++ " fields"
  | idImmutable => "_id is immutable"
  | unsupported op => "unsupported operator " ++ op
  | notDocument path name => "cannot create " ++ path ++ ": " ++ name ++ " is not a document"

end UpdateError

namespace Update

/-- Whether storing a value changes what is there, numbers of equal value counting as the same. -/
def changes (old : Option Value) (value : Value) : Bool :=
  match old with
  | none => true
  | some v => !v.alike value

/-- Stores a value at the end of a list of names. Missing documents on the way are created; a name
that leads to something else is given as the error, and then nothing is created. -/
def setAt (value : Value) : List String → Document → Except String (Document × Bool)
  | [], d => .ok (d, false)
  | [name], d => .ok (Keyed.put d name value, changes (Keyed.get? d name) value)
  | name :: rest, d =>
    match Keyed.get? d name with
    | none => do
      let (sub, changed) ← setAt value rest []
      .ok (Keyed.put d name (.document sub), changed)
    | some (.document fields) => do
      let (sub, changed) ← setAt value rest fields
      .ok (Keyed.put d name (.document sub), changed)
    | some _ => .error name

/-- Removes what is at the end of a list of names, and tells whether something was. -/
def unsetAt : List String → Document → Document × Bool
  | [], d => (d, false)
  | [name], d => (Keyed.erase d name, Keyed.has d name)
  | name :: rest, d =>
    match Keyed.get? d name with
    | some (.document fields) =>
      let (sub, changed) := unsetAt rest fields
      (Keyed.put d name (.document sub), changed)
    | _ => (d, false)

/-- Stores a value at a path. -/
def setPath (d : Document) (path : String) (value : Value) : Except UpdateError (Document × Bool) :=
  match setAt value (FieldPath.segments path) d with
  | .ok r => .ok r
  | .error name => .error (.notDocument path name)

/-- Removes what is at a path. -/
def unsetPath (d : Document) (path : String) : Document × Bool :=
  unsetAt (FieldPath.segments path) d

/-- A document on its way through an update, and whether it was changed so far or what failed. -/
structure Progress where
  document : Document
  result : Except UpdateError Bool

/-- Assigns fields one after the other, up to the first failure. -/
def setAll (d : Document) (changed : Bool) : List (String × Value) → Progress
  | [] => ⟨d, .ok changed⟩
  | (path, value) :: rest =>
    match setPath d path value with
    | .ok (d', c) => setAll d' (changed || c) rest
    | .error e => ⟨d, .error e⟩

/-- Removes fields one after the other. -/
def unsetAll (d : Document) (changed : Bool) : List (String × Value) → Progress
  | [] => ⟨d, .ok changed⟩
  | (path, _) :: rest =>
    let (d', c) := unsetPath d path
    unsetAll d' (changed || c) rest

/-- What is checked of an operator before any of its fields is touched. -/
def checkedFields (op : String) (operand : Value) : Except UpdateError (List (String × Value)) :=
  match operand with
  | .document fields =>
    if maxFields < fields.length then .error (.tooManyFields op)
    else if Keyed.has fields "_id" then .error .idImmutable
    else .ok fields
  | _ => .error (.needsDocument op)

/-- One operator. -/
def applyOperator (d : Document) (changed : Bool) (op : String) (operand : Value) : Progress :=
  match checkedFields op operand with
  | .error e => ⟨d, .error e⟩
  | .ok fields =>
    if op = "$set" then setAll d changed fields
    else if op = "$unset" then unsetAll d changed fields
    else ⟨d, .error (.unsupported op)⟩

/-- Operators one after the other, up to the first failure. -/
def applyOperators (d : Document) (changed : Bool) : List (String × Value) → Progress
  | [] => ⟨d, .ok changed⟩
  | (op, operand) :: rest =>
    match applyOperator d changed op operand with
    | ⟨d', .ok c⟩ => applyOperators d' c rest
    | p => p

/-- Applies an update to a document. The result tells whether it changed anything. -/
def apply (update d : Document) : Progress :=
  if update.isEmpty then ⟨d, .error .empty⟩ else applyOperators d false update

end Update
end DocQuery
