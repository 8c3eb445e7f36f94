/-
  Log records: a level, the part of the program that speaks, and what it says.
-/

namespace DocQuery

namespace Log

/-- How much a record matters, the most important level first. -/
inductive Level where
  | error
  | warn
  | info
  | debug
  | trace
deriving DecidableEq

namespace Level

def name : Level → String
  | error => "ERROR"
  | warn => "WARN"
  | info => "INFO"
  | debug => "DEBUG"
  | trace => "TRACE"

/-- The place of a level, from one for the most important. -/
def rank : Level → Nat
  | error => 1
  | warn => 2
  | info => 3
  | debug => 4
  | trace => 5

end Level

structure Record where
  level : Level
  target : String
  text : String
deriving DecidableEq

namespace Record

/-- The line of a record, time aside. -/
def line (r : Record) : String := "[" ++ r.level.name ++ "] " ++ r.target ++ " - " ++ r.text

end Record

/-! ## The parts that speak -/

/-- The root of every target of the program itself. -/
def programTarget : String := "multivarka"

def executionTarget : String := programTarget ++ "::pipeline::exec"

def preconditionTarget : String := programTarget ++ "::pipeline::validate"

def stepTarget : String := programTarget ++ "::pipeline::step"

def sessionTarget : String := programTarget ++ "::pipeline::context"

def storeTarget : String := programTarget ++ "::store::memory"

def filesTarget : String := programTarget ++ "::store::persist"

/-- Filter and update documents go to a target of their own. -/
def documentTarget : String := programTarget ++ "::trace"

end Log
end DocQuery
