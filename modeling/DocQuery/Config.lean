import DocQuery.FileTree
import DocQuery.Toml.Reader

/-
  Client configuration in layers: what is given explicitly goes before the environment, the
  environment before the configuration file, and the file before the defaults.
-/

namespace DocQuery

/-- What a program sees around it. -/
structure Environment where
  bindings : Keyed String String
  workingDirectory : Path
  /-- The home directory that the system keeps for the account. -/
  accountHome : Option String

namespace Environment

def get? (env : Environment) (name : String) : Option String := Keyed.get? env.bindings name

/-- The home directory: that of the account where `HOME` says nothing. -/
def home? (env : Environment) : Option String :=
  match env.get? "HOME" with
  | none => env.accountHome
  | some home => if home = "" then env.accountHome else some home

end Environment

structure LogSettings where
  level : Option String
  directory : Option String
  retention : Option Nat
deriving DecidableEq

/-- A layer of configuration; what it leaves open is left to the next layer. -/
structure Config where
  uri : Option String
  collection : Option String
  log : LogSettings
deriving DecidableEq

/-- Why a configuration file cannot be used. -/
inductive ConfigError where
  | unreadable (path : String)
  | malformed
deriving DecidableEq

namespace ConfigError

def message : ConfigError → String
  | unreadable path => "I/O error reading " ++ path
  | malformed => "TOML: malformed configuration"

end ConfigError

namespace Config

def empty : Config := ⟨none, none, ⟨none, none, none⟩⟩

def defaultUri : String := "memory://default"

def fileName : String := "multivarka.toml"

/-- The connection string to use. -/
def effectiveUri (c : Config) : String := c.uri.getD defaultUri

/-- Fills what a layer leaves open from the next one. -/
def mergeMissing (c next : Config) : Config where
  uri := c.uri.or next.uri
  collection := c.collection.or next.collection
  log := {
    level := c.log.level.or next.log.level
    directory := c.log.directory.or next.log.directory
    retention := c.log.retention.or next.log.retention }

/-- The layer of the environment. -/
def ofEnvironment (env : Environment) : Config where
  uri := env.get? "MULTIVARKA_URI"
  collection := env.get? "MULTIVARKA_COLLECTION"
  log := ⟨env.get? "MULTIVARKA_LOG_LEVEL", none, none⟩

/-! ## Configuration files -/

/-- An entry that is a string or is not there. -/
def stringEntry? : Option Toml → Option (Option String)
  | none => some none
  | some (.string s) => some (some s)
  | some _ => none

/-- An entry that is a count of 32 bits or is not there. -/
def countEntry? : Option Toml → Option (Option Nat)
  | none => some none
  | some (.integer n) => if 0 ≤ n && n < 4294967296 then some (some n.toNat) else none
  | some _ => none

/-- The log settings: a table, or the three values one after the other. A date or time is taken as
a table without entries. -/
def logSettings? : Option Toml → Option LogSettings
  | none => some ⟨none, none, none⟩
  | some (.dateTime _) => some ⟨none, none, none⟩
  | some (.table entries) => do
    let level ← stringEntry? (Keyed.get? entries "level")
    let directory ← stringEntry? (Keyed.get? entries "dir")
    let retention ← countEntry? (Keyed.get? entries "retention")
    some ⟨level, directory, retention⟩
  | some (.array items) => do
    let level ← stringEntry? items[0]?
    let directory ← stringEntry? items[1]?
    let retention ← countEntry? items[2]?
    some ⟨level, directory, retention⟩
  | some _ => none

/-- The layer of a configuration document. Entries that it does not know are left alone. -/
def ofEntries? (entries : Keyed String Toml) : Option Config := do
  let uri ← stringEntry? (Keyed.get? entries "uri")
  let collection ← stringEntry? (Keyed.get? entries "collection")
  let log ← logSettings? (Keyed.get? entries "log")
  some ⟨uri, collection, log⟩

/-- The layer of the text of a configuration file. -/
def ofText (text : String) : Except ConfigError Config :=
  match (Toml.ofText? text).bind ofEntries? with
  | some c => .ok c
  | none => .error .malformed

/-- The layer of a configuration file. -/
def ofFile (env : Environment) (files : FileTree) (path : String) : Except ConfigError Config :=
  match files.readText env.workingDirectory path with
  | .ok text => ofText text
  | .error _ => .error (.unreadable path)

/-- The path of a file in a directory. -/
def joinPath (dir name : String) : String :=
  if dir = "" then name
  else if dir.toList.getLast? = some '/' then dir ++ name
  else dir ++ "/" ++ name

/-- The directory for the configuration of a user. -/
def userDirectory? (env : Environment) : Option String :=
  let ofHome := env.home?.map fun home => joinPath home ".config"
  match env.get? "XDG_CONFIG_HOME" with
  | some dir => if dir.toList.head? = some '/' then some dir else ofHome
  | none => ofHome

/-- Where a configuration file is looked for, in order. The path of the working directory is taken
to be a text here. -/
def candidatePaths (env : Environment) : List String :=
  (env.get? "MULTIVARKA_CONFIG").toList
    ++ ((userDirectory? env).map fun dir => joinPath dir fileName).toList
    ++ [joinPath env.workingDirectory.text fileName]

/-- The configuration on top of which nothing is left open but the defaults. A file that is asked
for has to be there; of the candidates the first that is there is taken. -/
def load (env : Environment) (files : FileTree) (overrides : Config) (explicit : Option String) :
    Except ConfigError Config :=
  let c := overrides.mergeMissing (ofEnvironment env)
  let found := match explicit with
    | some path => some path
    | none => (candidatePaths env).find? fun path => files.existsAt env.workingDirectory path
  match found with
  | none => .ok c
  | some path =>
    match ofFile env files path with
    | .ok file => .ok (c.mergeMissing file)
    | .error e => .error e

end Config
end DocQuery
