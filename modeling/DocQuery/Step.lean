import DocQuery.Filter.Fragment

/-
  The steps of a query, and what each needs to be there before it runs.
-/

namespace DocQuery

/-- What steps leave for later ones. -/
inductive SessionPart where
  | connection
  | collection
  | targetField
  | negate
  | filter
  | updateSpec
  | updateOptions
deriving DecidableEq

namespace SessionPart

/-- All parts, in their order. -/
def all : List SessionPart :=
  [connection, collection, targetField, negate, filter, updateSpec, updateOptions]

/-- The name of a part in messages. -/
def name : SessionPart → String
  | connection => "connection"
  | collection => "collection"
  | targetField => "target_field"
  | negate => "negate"
  | filter => "filter"
  | updateSpec => "update_spec"
  | updateOptions => "update_options"

/-- The name of a part in the log. -/
def label : SessionPart → String
  | connection => "Connection"
  | collection => "Collection"
  | targetField => "TargetField"
  | negate => "Negate"
  | filter => "Filter"
  | updateSpec => "UpdateSpec"
  | updateOptions => "UpdateOptions"

end SessionPart

/-- The kinds of steps; the last four end a query. -/
inductive StepKind where
  | server
  | collection
  | select
  | negate
  | equal
  | lessThan
  | greaterThan
  | among
  | assign
  | find
  | remove
  | update
  | insert
deriving DecidableEq

namespace StepKind

/-- All kinds, in their order. -/
def all : List StepKind :=
  [server, collection, select, negate, equal, lessThan, greaterThan, among, assign, find, remove,
    update, insert]

def name : StepKind → String
  | server => "server"
  | collection => "collection"
  | select => "where"
  | negate => "not"
  | equal => "equal"
  | lessThan => "less_than"
  | greaterThan => "greater_than"
  | among => "include"
  | assign => "set"
  | find => "find"
  | remove => "remove"
  | update => "update"
  | insert => "insert"

/-- The parts that have to be set before a step of a kind runs. -/
def requires : StepKind → List SessionPart
  | server => []
  | collection => [.connection]
  | select | assign | insert => [.connection, .collection]
  | negate | equal | lessThan | greaterThan | among =>
    [.connection, .collection, .targetField, .negate]
  | find | remove => [.connection, .collection, .targetField, .negate, .filter]
  | update =>
    [.connection, .collection, .targetField, .negate, .filter, .updateSpec, .updateOptions]

end StepKind

/-- One step of a query. -/
inductive Step where
  | server (uri : String)
  | collection (name : String)
  | select (field : String)
  | negate
  | compare (comparison : Comparison) (value : Value)
  | among (values : List Value)
  | assign (field : String) (value : Value)

namespace Step

/-- The kind of a step; both equalities are of one kind. -/
def kind : Step → StepKind
  | server _ => .server
  | collection _ => .collection
  | select _ => .select
  | negate => .negate
  | compare .equal _ => .equal
  | compare .notEqual _ => .equal
  | compare .lessThan _ => .lessThan
  | compare .greaterThan _ => .greaterThan
  | among _ => .among
  | assign _ _ => .assign

end Step
end DocQuery
