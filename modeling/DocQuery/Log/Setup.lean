import DocQuery.Log.Record
import DocQuery.Log.Reference

/-
  Where log records go. Without a directory all go to standard error. With one, they also go to a
  file there, except those of documents, which go to a file of their own and nowhere else.
-/

namespace DocQuery.Log

/-- The level up to which records count; `none` silences all. -/
abbrev Threshold := Option Level

namespace Threshold

def name : Threshold → String
  | none => "OFF"
  | some level => level.name

/-- The level of a word in any case; any other word, and none at all, is `info`. -/
def parse (word : Option String) : Threshold :=
  match ((word.getD "info").toList.map Char.toLower) with
  | ['o', 'f', 'f'] => none
  | ['e', 'r', 'r', 'o', 'r'] => some .error
  | ['w', 'a', 'r', 'n'] => some .warn
  | ['d', 'e', 'b', 'u', 'g'] => some .debug
  | ['t', 'r', 'a', 'c', 'e'] => some .trace
  | _ => some .info

/-- Whether a record of a level counts. -/
def admits (t : Threshold) (level : Level) : Bool :=
  match t with
  | none => false
  | some top => level.rank ≤ top.rank

end Threshold

/-- A place that records go to. -/
inductive Appender where
  | stderr
  | app
  | trace
deriving DecidableEq

namespace Appender

def name : Appender → String
  | stderr => "stderr"
  | app => "app"
  | trace => "trace"

end Appender

/-- The file of the records in general. -/
def appFile : String := "multivarka.log"

/-- The file of the records of documents. -/
def traceFile : String := "trace.log"

/-- How logging is set up. -/
structure Setup where
  threshold : Threshold
  directory : Option Path
  /-- How many full files are kept. -/
  retention : Nat

namespace Setup

def defaultRetention : Nat := 7

def appenders (s : Setup) : List Appender :=
  if s.directory.isSome then [.stderr, .app, .trace] else [.stderr]

/-- The appenders of records in general. -/
def rootAppenders (s : Setup) : List Appender :=
  if s.directory.isSome then [.stderr, .app] else [.stderr]

/-- The appenders of the records of documents alone. -/
def documentAppenders (s : Setup) : List Appender := if s.directory.isSome then [.trace] else []

/-- Whether records of documents also go where all others go. -/
def documentsAdditive (s : Setup) : Bool := s.directory.isNone

/-- Whether a target is another one or below it. -/
def isBelow (target parent : String) : Bool :=
  target = parent || (parent ++ "::").toList.isPrefixOf target.toList

/-- Where a record goes. -/
def destinations (s : Setup) (r : Record) : List Appender :=
  if s.threshold.admits r.level then
    if isBelow r.target documentTarget then
      s.documentAppenders ++ (if s.documentsAdditive then s.rootAppenders else [])
    else s.rootAppenders
  else []

/-- The lines that an appender gets of some records. -/
def lines (s : Setup) (a : Appender) (records : List Record) : List String :=
  (records.filter fun r => (s.destinations r).contains a).map Record.line

/-- Opens the file of an appender. Its path is that of the log directory with the name of the file,
and references in it are expanded. -/
def openFile (env : Environment) (files : FileTree) (directory name : String) : FileTree.Made :=
  files.openFile env.workingDirectory (Reference.expand env (Config.joinPath directory name))

/-- Opens the files of both appenders that have one. -/
def openFiles (env : Environment) (files : FileTree) (directory : String) : FileTree.Made :=
  match openFile env files directory appFile with
  | ⟨files, .error e⟩ => ⟨files, .error e⟩
  | ⟨files, .ok _⟩ => openFile env files directory traceFile

/-- Sets logging up, making the log directory and its files; `none` if they cannot be made. The
directory is made by the name that it is given, also where the files are led elsewhere. -/
def build (env : Environment) (files : FileTree) (directory : Option String) (threshold : Threshold)
    (retention : Option Nat) : FileTree × Option Setup :=
  let keep := retention.getD defaultRetention
  match directory with
  | none => (files, some ⟨threshold, none, keep⟩)
  | some text =>
    match files.makeDirectories env.workingDirectory text with
    | ⟨files, .error _⟩ => (files, none)
    | ⟨files, .ok _⟩ =>
      match openFiles env files text with
      | ⟨files, .ok dir⟩ => (files, some ⟨threshold, some dir, keep⟩)
      | ⟨files, .error _⟩ => (files, none)

/-- A count of 32 bits in base ten, with an optional plus sign. -/
def count? (word : String) : Option Nat :=
  let digits := match word.toList with
    | '+' :: cs => cs
    | cs => cs
  if digits.isEmpty || !digits.all Char.isDigit then none
  else
    let n := Json.decimalValue digits
    if n < 4294967296 then some n else none

/-- Sets logging up from the environment. -/
def ofEnvironment (env : Environment) (files : FileTree) : FileTree × Option Setup :=
  build env files (env.get? "MULTIVARKA_LOG_DIR")
    (Threshold.parse (env.get? "MULTIVARKA_LOG_LEVEL"))
    ((env.get? "MULTIVARKA_LOG_RETENTION").bind count?)

/-- Adds lines at the end of a file. -/
def appendLines (files : FileTree) (dir : Path) (name : String) (new : List String) : FileTree :=
  let old := (files.textAt? (dir ++ [.text name])).getD ""
  match files.write dir name (.text (old ++ String.join (new.map fun line => line ++ "\n"))) with
  | .ok files => files
  | .error _ => files

/-- Writes records to the files of the appenders. -/
def deliver (s : Setup) (records : List Record) (files : FileTree) : FileTree :=
  match s.directory with
  | none => files
  | some dir =>
    let files := appendLines files dir appFile (s.lines .app records)
    appendLines files dir traceFile (s.lines .trace records)

end Setup

/-- Logging in a program: it is set up at most once. -/
structure Installation where
  setup : Option Setup

namespace Installation

def empty : Installation := ⟨none⟩

/-- Sets logging up, unless it is set up already. The files are made in either case. -/
def install (i : Installation) (result : Option Setup) : Installation × Bool :=
  match i.setup, result with
  | none, some setup => (⟨some setup⟩, true)
  | _, _ => (i, false)

end Installation
end DocQuery.Log
