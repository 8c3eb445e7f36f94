import DocQuery.Store.Error

/-
  Connection strings. `memory://` names a database that lives in the store, `file://` one that is
  kept in a directory.
-/

namespace DocQuery

/-- Where a connection string leads. -/
inductive Address where
  | memory (name : String)
  | directory (path : String)
deriving DecidableEq

namespace Address

/-- What is behind a given beginning. -/
def behind? : List Char → List Char → Option (List Char)
  | [], cs => some cs
  | b :: begin, c :: cs => if b = c then behind? begin cs else none
  | _ :: _, [] => none

/-- Drops slashes at both ends. -/
def trimSlashes (cs : List Char) : List Char :=
  ((cs.dropWhile (· = '/')).reverse.dropWhile (· = '/')).reverse

/-- The database that is meant when none is named. -/
def defaultDatabase : String := "default"

/-- Reads a connection string. -/
def parse (uri : String) : Except ConnectError Address :=
  match behind? "memory://".toList uri.toList with
  | some rest =>
    let name := trimSlashes rest
    if name.contains '/' then .error (.invalidDatabaseName uri)
    else .ok (.memory (if name.isEmpty then defaultDatabase else String.ofList name))
  | none =>
    match behind? "file://".toList uri.toList with
    | some [] => .error .noDirectory
    | some path => .ok (.directory (String.ofList path))
    | none => .error (.unsupported uri)

end Address
end DocQuery
