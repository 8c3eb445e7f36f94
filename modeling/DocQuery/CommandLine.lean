import DocQuery.Query
import DocQuery.CommandLine.Arguments
import DocQuery.Engine.Driver
import DocQuery.Log.Setup

/-
  The command line program as a function: from the arguments, the environment and the files to an
  exit code, the lines that are printed, and the files afterwards.
-/

namespace DocQuery.CommandLine

/-- Why the program ends without a result. -/
inductive Failure where
  | usage
  | config (cause : ConfigError)
  | noCollection
  /-- An assignment without an equals sign. -/
  | notAssignment (word : String)
  | noFieldName (word : String)
  | candidatesNotArray
  | notDocument
  | run (cause : RunError)

namespace Failure

def code : Failure → Nat
  | usage => 2
  | config _ => 2
  | noCollection => 2
  | _ => 1

/-- The message on standard error. -/
def message : Failure → String
  | usage => "error: invalid arguments; see --help"
  | config cause => "config error: " ++ cause.message
  | noCollection =>
    "no collection given (use --collection, MULTIVARKA_COLLECTION or the config file)"
  | notAssignment word => "error: expected FIELD=JSON, got " ++ Text.quoted word
  | noFieldName word => "error: empty field name in " ++ Text.quoted word
  | candidatesNotArray => "error: --include expects a JSON array"
  | notDocument => "error: not a JSON document"
  | run cause => "error: " ++ cause.message

end Failure

/-- A value from an argument: JSON, or else the argument itself as a string. -/
def valueOfText (raw : String) : Value := (Value.ofText? raw).getD (.string raw)

/-- Splits an assignment at its first equals sign. -/
def splitAssignment (raw : String) : Except Failure (String × Value) :=
  match splitEquals raw.toList with
  | (_, none) => .error (.notAssignment raw)
  | ([], some _) => .error (.noFieldName raw)
  | (field, some value) => .ok (String.ofList field, valueOfText (String.ofList value))

/-- Adds a call to a query if an argument asks for it. -/
def withValue (q : Query) (raw : Option String) (call : Query → Value → Query) : Query :=
  match raw with
  | none => q
  | some raw => call q (valueOfText raw)

/-- Adds the clauses of the filter arguments to a query. -/
def applyFilter (q : Query) (a : FilterArguments) : Except Failure Query :=
  let q := match a.field with
    | none => q
    | some field => q.select field
  let q := if a.negated then q.negate else q
  let q := withValue q a.equal .equal
  let q := withValue q a.lessThan .lessThan
  let q := withValue q a.greaterThan .greaterThan
  match a.among with
  | none => .ok q
  | some raw =>
    match Value.itemsOfText? raw with
    | none => .error .candidatesNotArray
    | some values => .ok (q.among values)

/-- Adds assignments to a query. -/
def applyAssignments (q : Query) : List String → Except Failure Query
  | [] => .ok q
  | raw :: rest =>
    match splitAssignment raw with
    | .error e => .error e
    | .ok (field, value) => applyAssignments (q.assign field value) rest

/-- The query of a command and the operation that ends it. -/
def plan (base : Query) : Command → Except Failure (Query × Operation)
  | .find a => (applyFilter base a).map fun q => (q, .find)
  | .remove a => (applyFilter base a).map fun q => (q, .remove)
  | .update a assignments =>
    match applyFilter base a with
    | .error e => .error e
    | .ok q => (applyAssignments q assignments).map fun q => (q, .update)
  | .insert raw =>
    match Value.documentOfText? raw with
    | none => .error .notDocument
    | some d => .ok (base, .insert d)

/-- The lines of a report. -/
def reportLines : Report → List String
  | .documents docs => docs.map Value.documentText
  | .deleted n => [(Json.object [("deleted", .int n)]).text]
  | .updated matched modified =>
    [(Json.object [("matched", .int matched), ("modified", .int modified)]).text]
  | .inserted id => [(Json.object [("inserted_id", id.toJson)]).text]

/-- Runs a command on a store, through a driver. -/
def runCommand (d : Driver Engine Nat Handle) (base : Query) (command : Command) (g : Engine) :
    Except Failure Report × Engine :=
  match plan base command with
  | .error e => (.error e, g)
  | .ok (q, op) =>
    match q.run d op g with
    | (.ok report, g) => (.ok report, g)
    | (.error e, g) => (.error (.run e), g)

/-! ## Whole runs -/

/-- What the options of an invocation settle before the environment and the files are asked. -/
def overrides (i : Invocation) : Config := ⟨i.uri, i.collection, ⟨i.logLevel, none, none⟩⟩

/-- The configuration files that an invocation may read. -/
def configFiles (env : Environment) (i : Invocation) : List String :=
  match i.config with
  | some path => [path]
  | none => Config.candidatePaths env

/-- The directories that a run with a configuration reads and writes. -/
def directories (env : Environment) (c : Config) : List String :=
  (c.log.directory.toList.flatMap fun dir => [dir, Log.Reference.expand env dir]) ++
    match Address.parse c.effectiveUri with
    | .ok (.directory path) => [path]
    | _ => []

/-- How the program ends. -/
structure Outcome where
  result : Except Failure (List String)
  /-- The lines on standard error apart from the failure itself. -/
  notes : List String
  files : FileTree

namespace Outcome

def code (o : Outcome) : Nat :=
  match o.result with
  | .ok _ => 0
  | .error e => e.code

end Outcome

def versionLine : String := "multivarka 0.1.0"

def helpLines : List String :=
  ["Run fluent document queries from the shell",
   "",
   "Usage: multivarka [OPTIONS] <COMMAND>",
   "",
   "Commands: find, remove, update, insert, help",
   "Options: --config, --uri, --collection, --log-level, --help, --version"]

/-- Runs an invocation. Logging that cannot be set up is only reported. -/
def runInvocation (d : Driver Engine Nat Handle) (env : Environment) (files : FileTree)
    (ids : Nat → ObjectId) (i : Invocation) : Outcome :=
  match Config.load env files (overrides i) i.config with
  | .error e => ⟨.error (.config e), [], files⟩
  | .ok config =>
    let (files, setup) := Log.Setup.build env files config.log.directory
      (Log.Threshold.parse (some (config.log.level.getD "warn"))) config.log.retention
    let notes := if setup.isNone then ["logging disabled"] else []
    match config.collection with
    | none => ⟨.error .noCollection, notes, files⟩
    | some collection =>
      let base := (Query.empty.server config.effectiveUri).collection collection
      let (result, g) :=
        runCommand d base i.command ⟨files, env.workingDirectory, .empty ids, []⟩
      let records := g.log.reverse
      let result := result.map reportLines
      match setup with
      | none => ⟨result, notes, g.files⟩
      | some setup => ⟨result, notes ++ setup.lines .stderr records, setup.deliver records g.files⟩

/-- Runs the program on its arguments, over a store that a driver works on. -/
def runWith (d : Driver Engine Nat Handle) (env : Environment) (files : FileTree)
    (ids : Nat → ObjectId) (args : List String) : Outcome :=
  match parse args with
  | .version => ⟨.ok [versionLine], [], files⟩
  | .help => ⟨.ok helpLines, [], files⟩
  | .refused => ⟨.error .usage, [], files⟩
  | .run i => runInvocation d env files ids i

/-- Runs the program on its arguments. -/
def run (env : Environment) (files : FileTree) (ids : Nat → ObjectId) (args : List String) :
    Outcome :=
  runWith Engine.driver env files ids args

end DocQuery.CommandLine
