import DocQuery.Driver
import DocQuery.Run.Session

/-
  Running a query: the steps one after the other, each only if what it needs is there, then the
  operation that ends the query. The first failure skips the rest. The connection is closed after
  the outcome has been handed over, whatever the outcome is.
-/

namespace DocQuery

/-- How a query ends. -/
inductive Operation where
  | find
  | remove
  | update
  | insert (document : Document)

namespace Operation

def kind : Operation → StepKind
  | find => .find
  | remove => .remove
  | update => .update
  | insert _ => .insert

end Operation

/-- The last act of a run: its kind, and what it makes of the session. -/
structure Terminal (σ κ η α : Type) where
  kind : StepKind
  run : Session κ η → σ → Except RunError α × σ

namespace Run

variable {σ κ η α ρ : Type}

def debug (d : Driver σ κ η) (target text : String) (s : σ) : σ := d.note ⟨.debug, target, text⟩ s

def warn (d : Driver σ κ η) (target text : String) (s : σ) : σ := d.note ⟨.warn, target, text⟩ s

def trace (d : Driver σ κ η) (text : String) (s : σ) : σ :=
  d.note ⟨.trace, Log.executionTarget, text⟩ s

/-- Fails unless everything that a step of a kind needs is set; names all that is missing. -/
def validate (d : Driver σ κ η) (c : Session κ η) (kind : StepKind) (s : σ) :
    Except RunError Unit × σ :=
  match c.missing kind with
  | [] => (.ok (), s)
  | parts =>
    (.error (.precondition kind parts), debug d Log.preconditionTarget
      ("precondition failed for " ++ kind.name ++ ": missing ["
        ++ Value.separated ", " (parts.map SessionPart.label) ++ "]") s)

/-- Drops the collection and closes the connection if there is one. A close that fails is only
noted. -/
def release (d : Driver σ κ η) (c : Session κ η) (s : σ) : Session κ η × σ :=
  let c' := { c with collection := none, connection := none }
  match c.connection with
  | none => (c', s)
  | some conn =>
    match d.close conn s with
    | (.ok (), s) => (c', s)
    | (.error e, s) => (c', warn d Log.sessionTarget ("closing connection failed: " ++ e.message) s)

/-- A required part of the session. -/
def required {β : Type} (value : Option β) (kind : StepKind) (part : SessionPart) :
    Except RunError β :=
  match value with
  | some b => .ok b
  | none => .error (.precondition kind [part])

/-- Adds a clause on the target field to the filter. -/
def addClause (c : Session κ η) (kind : StepKind) (fragment : String → Bool → Document) :
    Except RunError (Session κ η) :=
  match required c.targetField kind .targetField with
  | .error e => .error e
  | .ok field =>
    .ok { c with filter := some (Fragment.conjoin c.filter (fragment field c.negated)) }

/-- Connects. A connection from before is closed first, and everything set so far is dropped. -/
def applyServer (d : Driver σ κ η) (uri : String) (c : Session κ η) (s : σ) :
    Except RunError Unit × Session κ η × σ :=
  let (c, s) :=
    if c.connection.isSome then
      let s := warn d Log.stepTarget
        "`server` called twice in one chain; closing the earlier connection" s
      (Session.empty, (release d c s).2)
    else (c, s)
  match d.connect uri s with
  | (.error e, s) => (.error (.connect e), c, s)
  | (.ok conn, s) => (.ok (), { c with connection := some conn }, s)

/-- Runs one step. Its preconditions have been checked. -/
def apply (d : Driver σ κ η) (step : Step) (c : Session κ η) (s : σ) :
    Except RunError Unit × Session κ η × σ :=
  match step with
  | .server uri => applyServer d uri c s
  | .collection name =>
    match required c.connection step.kind .connection with
    | .error e => (.error e, c, s)
    | .ok conn =>
      match d.collection conn name s with
      | (.error e, s) => (.error (.store e), c, s)
      | (.ok coll, s) => (.ok (), { c with collection := some coll }, s)
  | .select field => (.ok (), { c with targetField := some field, negate := some false }, s)
  | .negate => (.ok (), { c with negate := some true }, s)
  | .compare comparison value =>
    match addClause c step.kind fun field negate =>
        Fragment.compare field (comparison.resolve negate) value with
    | .error e => (.error e, c, s)
    | .ok c => (.ok (), c, s)
  | .among values =>
    match addClause c step.kind fun field negate => Fragment.membership field values negate with
    | .error e => (.error e, c, s)
    | .ok c => (.ok (), c, s)
  | .assign field value =>
    let spec := Fragment.assign c.updateSpec field value
    (.ok (), { c with updateSpec := some spec, multi := some true }, s)

/-- The request that an operation makes of a session. -/
def request (c : Session κ η) (op : Operation) : Except RunError Request :=
  match op with
  | .find => do
    let filter ← required c.filter op.kind .filter
    .ok (.find filter)
  | .remove => do
    let filter ← required c.filter op.kind .filter
    .ok (.remove filter)
  | .update => do
    let filter ← required c.filter op.kind .filter
    let spec ← required c.updateSpec op.kind .updateSpec
    let multi ← required c.multi op.kind .updateOptions
    .ok (.update filter spec multi)
  | .insert document => .ok (.insert document)

/-- A document, or none, in the trace of documents. -/
def optionText : Option Document → String
  | none => "None"
  | some d => Value.inParens "Some" (Value.labelledDocument d)

/-- The trace of the documents that go into a request. -/
def requestText (kind : StepKind) (request : Request) : String :=
  let line (filter update : Option Document) :=
    kind.name ++ " filter=" ++ optionText filter ++ " update=" ++ optionText update
  match request with
  | .find filter => line (some filter) none
  | .remove filter => line (some filter) none
  | .update filter spec _ => line (some filter) (some spec)
  | .insert document => line none (some document)

/-- Runs the operation that ends a query: one request to the collection. -/
def perform (d : Driver σ κ η) (op : Operation) (c : Session κ η) (s : σ) :
    Except RunError Report × σ :=
  match required c.collection op.kind .collection, request c op with
  | .error e, _ => (.error e, s)
  | .ok _, .error e => (.error e, s)
  | .ok coll, .ok request =>
    match d.perform coll request (debug d Log.documentTarget (requestText op.kind request) s) with
    | (.error e, s) => (.error (.store e), s)
    | (.ok report, s) => (.ok report, s)

/-- An operation as the last act of a run. -/
def terminal (d : Driver σ κ η) (op : Operation) : Terminal σ κ η Report := ⟨op.kind, perform d op⟩

/-- The place of a step in the log. -/
def placeText (n total : Nat) (kind : StepKind) : String :=
  "step " ++ toString n ++ "/" ++ toString total ++ ": " ++ kind.name

/-- Runs steps up to the first failure; `n` is the number of the first. -/
def runSteps (d : Driver σ κ η) (total : Nat) :
    Nat → List Step → Session κ η → σ → Except RunError Unit × Session κ η × σ
  | _, [], c, s => (.ok (), c, s)
  | n, step :: rest, c, s =>
    match validate d c step.kind s with
    | (.error e, s) => (.error e, c, s)
    | (.ok (), s) =>
      match apply d step c (trace d (placeText n total step.kind) s) with
      | (.error e, c, s) => (.error e, c, s)
      | (.ok (), c, s) => runSteps d total (n + 1) rest c s

/-- Runs the steps of a query and its last act. -/
def drive (d : Driver σ κ η) (steps : List Step) (t : Terminal σ κ η α) (s : σ) :
    Except RunError α × Session κ η × σ :=
  let total := steps.length + 1
  match runSteps d total 1 steps .empty s with
  | (.error e, c, s) => (.error e, c, s)
  | (.ok (), c, s) =>
    match validate d c t.kind s with
    | (.error e, s) => (.error e, c, s)
    | (.ok (), s) =>
      let (result, s) := t.run c (trace d (placeText total total t.kind) s)
      (result, c, s)

/-- What is noted about the outcome of a run. -/
def noteOutcome (d : Driver σ κ η) (kind : StepKind) (c : Session κ η) (outcome : Except RunError α)
    (s : σ) : σ :=
  match outcome with
  | .ok _ => debug d Log.executionTarget (kind.name ++ " completed") s
  | .error e => warn d Log.executionTarget
      (kind.name ++ " aborted in phase " ++ c.phase.label ++ ": " ++ e.message) s

/-- Runs a query, hands the outcome to `complete`, and closes the connection. -/
def execute (d : Driver σ κ η) (steps : List Step) (t : Terminal σ κ η α)
    (complete : Except RunError α → σ → ρ × σ) (s : σ) : ρ × σ :=
  let (outcome, c, s) := drive d steps t s
  let s := noteOutcome d t.kind c outcome s
  let c := c.finish outcome.isOk
  let (out, s) := complete outcome s
  let (c, s) := release d c s
  (out, trace d (t.kind.name ++ " finished in phase " ++ c.phase.label) s)

/-- Runs a query and gives its outcome. -/
def run (d : Driver σ κ η) (steps : List Step) (op : Operation) (s : σ) :
    Except RunError Report × σ :=
  execute d steps (terminal d op) (fun outcome s => (outcome, s)) s

end Run
end DocQuery
