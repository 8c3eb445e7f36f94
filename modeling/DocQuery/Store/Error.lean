import DocQuery.FileTree
import DocQuery.Filter.Parse
import DocQuery.Update
import DocQuery.Value.Text

/-
  Why a store refuses, and how it says so.
-/

namespace DocQuery

/-- Why a connection string leads to no database. -/
inductive ConnectError where
  | invalidDatabaseName (uri : String)
  | noDirectory
  | unsupported (uri : String)
  /-- The other side said no. -/
  | refused (reason : String)
deriving DecidableEq

namespace ConnectError

def message : ConnectError → String
  | invalidDatabaseName uri => "invalid database name in " ++ uri
  | noDirectory => "file:// requires a directory"
  | unsupported uri => "unsupported connection string: " ++ uri
  | refused reason => reason

end ConnectError

/-- Why files could not be read or written. -/
inductive IoError where
  /-- A line of a collection file is not a document. Lines count from one. -/
  | unreadableLine (file : String) (line : Nat)
  | system (cause : FileError)
deriving DecidableEq

namespace IoError

def message : IoError → String
  | unreadableLine file line => file ++ ":" ++ toString line ++ ": not a document"
  | system cause => cause.message

end IoError

/-- Why a store call failed. -/
inductive StoreError where
  | connect (cause : ConnectError)
  | closed
  | io (cause : IoError)
  | filter (cause : FilterError)
  | update (cause : UpdateError)
  | duplicateId (id : Value)
  | invalidCollectionName (name : String)
  /-- Any other failure, in the words of the store. -/
  | failed (reason : String)

namespace StoreError

def message : StoreError → String
  | connect cause => "connection error: " ++ cause.message
  | closed => "connection is closed"
  | io cause => "I/O error: " ++ cause.message
  | filter cause => "malformed filter: " ++ cause.message
  | update cause => "malformed update: " ++ cause.message
  | duplicateId id => "duplicate _id: " ++ id.plainText
  | invalidCollectionName name => "invalid collection name: " ++ Text.quoted name
  | failed reason => reason

end StoreError
end DocQuery
