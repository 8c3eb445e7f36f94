import DocQuery.Query

/-
  Chains: queries that know how far they have been put together, and offer only the calls that
  make sense there.
-/

namespace DocQuery

/-- How far a chain has been put together. -/
inductive Stage where
  | unconnected
  | connected
  | collectionBound
  | fieldSelected
  | filterReady
  | updateReady
deriving DecidableEq

/-- A chain that has reached a stage, by the calls that led there. -/
inductive Chain : Stage → Type where
  | start : Chain .unconnected
  | server (c : Chain .unconnected) (uri : String) : Chain .connected
  | collection (c : Chain .connected) (name : String) : Chain .collectionBound
  /-- The first clause. -/
  | select (c : Chain .collectionBound) (field : String) : Chain .fieldSelected
  /-- A further clause, joined to those before it. -/
  | selectNext (c : Chain .filterReady) (field : String) : Chain .fieldSelected
  | negate (c : Chain .fieldSelected) : Chain .fieldSelected
  | equal (c : Chain .fieldSelected) (value : Value) : Chain .filterReady
  | lessThan (c : Chain .fieldSelected) (value : Value) : Chain .filterReady
  | greaterThan (c : Chain .fieldSelected) (value : Value) : Chain .filterReady
  | among (c : Chain .fieldSelected) (values : List Value) : Chain .filterReady
  /-- The first assignment. -/
  | assign (c : Chain .filterReady) (field : String) (value : Value) : Chain .updateReady
  /-- A further assignment. -/
  | assignNext (c : Chain .updateReady) (field : String) (value : Value) : Chain .updateReady

namespace Chain

/-- The query with the same steps. -/
def toQuery : {stage : Stage} → Chain stage → Query
  | _, start => .empty
  | _, server c uri => c.toQuery.server uri
  | _, collection c name => c.toQuery.collection name
  | _, select c field => c.toQuery.select field
  | _, selectNext c field => c.toQuery.select field
  | _, negate c => c.toQuery.negate
  | _, equal c value => c.toQuery.equal value
  | _, lessThan c value => c.toQuery.lessThan value
  | _, greaterThan c value => c.toQuery.greaterThan value
  | _, among c values => c.toQuery.among values
  | _, assign c field value => c.toQuery.assign field value
  | _, assignNext c field value => c.toQuery.assign field value

variable {σ κ η : Type}

/-- The documents that match. -/
def find (c : Chain .filterReady) (d : Driver σ κ η) (s : σ) : Except RunError Report × σ :=
  c.toQuery.run d .find s

/-- Deletes what matches. -/
def remove (c : Chain .filterReady) (d : Driver σ κ η) (s : σ) : Except RunError Report × σ :=
  c.toQuery.run d .remove s

/-- Carries the assignments out on all that matches. -/
def update (c : Chain .updateReady) (d : Driver σ κ η) (s : σ) : Except RunError Report × σ :=
  c.toQuery.run d .update s

/-- Adds a document. -/
def insert (c : Chain .collectionBound) (document : Document) (d : Driver σ κ η) (s : σ) :
    Except RunError Report × σ :=
  c.toQuery.run d (.insert document) s

end Chain
end DocQuery
