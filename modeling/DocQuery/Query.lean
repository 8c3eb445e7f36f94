import DocQuery.Run

/-
  Queries: steps put together call by call, in any order, and run only when an operation ends
  them.
-/

namespace DocQuery

/-- The steps queued so far. Nothing is checked before the query runs. -/
structure Query where
  steps : List Step

namespace Query

def empty : Query := ⟨[]⟩

def push (q : Query) (step : Step) : Query := ⟨q.steps ++ [step]⟩

/-- Drops all queued steps. -/
def reset (_ : Query) : Query := empty

def server (q : Query) (uri : String) : Query := q.push (.server uri)

def collection (q : Query) (name : String) : Query := q.push (.collection name)

/-- Selects the field of the clauses that follow; they are not negated. -/
def select (q : Query) (field : String) : Query := q.push (.select field)

/-- Negates the clauses on the current field. -/
def negate (q : Query) : Query := q.push .negate

def equal (q : Query) (value : Value) : Query := q.push (.compare .equal value)

def lessThan (q : Query) (value : Value) : Query := q.push (.compare .lessThan value)

def greaterThan (q : Query) (value : Value) : Query := q.push (.compare .greaterThan value)

def among (q : Query) (values : List Value) : Query := q.push (.among values)

/-- Assigns a field on every match when an update runs. -/
def assign (q : Query) (field : String) (value : Value) : Query := q.push (.assign field value)

variable {σ κ η ρ : Type}

/-- Ends the query with an operation and hands the outcome to `complete`. -/
def runWith (q : Query) (d : Driver σ κ η) (op : Operation)
    (complete : Except RunError Report → σ → ρ × σ) (s : σ) : ρ × σ :=
  Run.execute d q.steps (Run.terminal d op) complete s

/-- Ends the query with an operation. -/
def run (q : Query) (d : Driver σ κ η) (op : Operation) (s : σ) : Except RunError Report × σ :=
  Run.run d q.steps op s

end Query
end DocQuery
