import DocQuery.Step
import DocQuery.Store.Error

/-
  The state that the steps of a run share, how far it has come, and the errors of a run.
-/

namespace DocQuery

/-- What the steps of a run have set so far, over connections `κ` and collections `η`. -/
structure Session (κ η : Type) where
  connection : Option κ
  collection : Option η
  targetField : Option String
  negate : Option Bool
  filter : Option Document
  updateSpec : Option Document
  /-- Whether an update goes to all matches. -/
  multi : Option Bool
  succeeded : Option Bool

/-- How far a run has come. -/
inductive Phase where
  | unconnected
  | connected
  | collectionSelected
  | fieldSelected
  | filterReady
  | executed
  | failed
deriving DecidableEq

namespace Phase

def label : Phase → String
  | unconnected => "Unconnected"
  | connected => "Connected"
  | collectionSelected => "CollectionSelected"
  | fieldSelected => "FieldSelected"
  | filterReady => "FilterReady"
  | executed => "Executed"
  | failed => "Failed"

/-- The place of a phase in the course of a run. -/
def rank : Phase → Nat
  | unconnected => 0
  | connected => 1
  | collectionSelected => 2
  | fieldSelected => 3
  | filterReady => 4
  | executed => 5
  | failed => 6

end Phase

namespace Session

variable {κ η : Type}

/-- Nothing is set at the start. -/
def empty : Session κ η := ⟨none, none, none, none, none, none, none, none⟩

def has (c : Session κ η) : SessionPart → Bool
  | .connection => c.connection.isSome
  | .collection => c.collection.isSome
  | .targetField => c.targetField.isSome
  | .negate => c.negate.isSome
  | .filter => c.filter.isSome
  | .updateSpec => c.updateSpec.isSome
  | .updateOptions => c.multi.isSome

/-- The parts that a step of a kind needs and does not find, in the order of the table. -/
def missing (c : Session κ η) (kind : StepKind) : List SessionPart :=
  kind.requires.filter fun part => !c.has part

/-- How far the run has come, from what is set. -/
def phase (c : Session κ η) : Phase :=
  match c.succeeded with
  | some true => .executed
  | some false => .failed
  | none =>
    if c.connection.isNone then .unconnected
    else if c.collection.isNone then .connected
    else if c.filter.isSome then .filterReady
    else if c.targetField.isSome then .fieldSelected
    else .collectionSelected

/-- Whether the next clause is negated. -/
def negated (c : Session κ η) : Bool := c.negate.getD false

/-- Records the outcome of the run. -/
def finish (c : Session κ η) (succeeded : Bool) : Session κ η :=
  { c with succeeded := some succeeded }

end Session

/-- Why a run ends without a result. -/
inductive RunError where
  | precondition (step : StepKind) (missing : List SessionPart)
  | connect (cause : StoreError)
  | store (cause : StoreError)

namespace RunError

def message : RunError → String
  | precondition step missing =>
    "insufficient parameters for `" ++ step.name ++ "`: missing "
      ++ Value.separated ", " (missing.map SessionPart.name)
  | connect cause => "connect failed: " ++ cause.message
  | store cause => "store failed: " ++ cause.message

end RunError
end DocQuery
