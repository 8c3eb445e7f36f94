import DocQuery.FileTree
import DocQuery.Filter
import DocQuery.Update

/-
  A document store: databases of collections, connections to them, and the changes that leave
  every collection in order. A database may be kept in a directory.
-/

namespace DocQuery

/-- A database: where it is kept, if not in memory alone, and its collections. A collection that is
not there is empty. -/
structure Database where
  directory : Option Path
  collections : Keyed String (List Document)

/-- A connection: the database it leads to, and whether it is closed. -/
structure Connection where
  database : String
  closed : Bool

/-- A store. Connections are numbered in the order in which they were opened. -/
structure Store where
  databases : Keyed String Database
  connections : List Connection
  opened : Nat
  closed : Nat
  /-- The identifiers that will be given out, in order. Nothing is assumed of them. -/
  ids : Nat → ObjectId

/-- A collection, as seen through a connection. -/
structure Handle where
  connection : Nat
  collection : String
deriving DecidableEq

/-- How often connections were opened and closed. -/
structure Stats where
  opened : Nat
  closed : Nat
deriving DecidableEq

namespace Stats

/-- The connections that are still open. -/
def stillOpen (s : Stats) : Nat := s.opened - s.closed

end Stats

namespace Store

/-- A store without databases, with the identifiers that it will give out. -/
def empty (ids : Nat → ObjectId) : Store := ⟨[], [], 0, 0, ids⟩

def stats (s : Store) : Stats := ⟨s.opened, s.closed⟩

/-- The documents of a collection of a database. -/
def documents (s : Store) (database collection : String) : List Document :=
  match Keyed.get? s.databases database with
  | some db => (Keyed.get? db.collections collection).getD []
  | none => []

/-- Replaces the documents of a collection, making the database if it is not there. -/
def setDocuments (s : Store) (database collection : String) (docs : List Document) : Store :=
  let db := (Keyed.get? s.databases database).getD ⟨none, []⟩
  let db := { db with collections := Keyed.put db.collections collection docs }
  { s with databases := Keyed.put s.databases database db }

/-- Makes a database in memory if there is none of that name. -/
def ensureDatabase (s : Store) (database : String) : Store :=
  match Keyed.get? s.databases database with
  | some _ => s
  | none => { s with databases := Keyed.put s.databases database ⟨none, []⟩ }

/-- Puts the next identifier in front of a document that has none. -/
def withId (s : Store) (d : Document) : Store × Document :=
  if Keyed.has d "_id" then (s, d)
  else ({ s with ids := fun n => s.ids (n + 1) }, ("_id", .objectId (s.ids 0)) :: d)

/-- Adds documents to a collection without a connection. -/
def seed (s : Store) (database collection : String) (docs : List Document) : Store :=
  let s := s.ensureDatabase database
  let (s, docs) := docs.foldl (fun (s, out) d => let (s, d) := s.withId d; (s, out ++ [d])) (s, [])
  s.setDocuments database collection (s.documents database collection ++ docs)

/-- The documents of a collection, without a connection. A database that is not there is made. -/
def dump (s : Store) (database collection : String) : Store × List Document :=
  (s.ensureDatabase database, s.documents database collection)

/-- Whether an identifier is already in use. -/
def idInUse (docs : List Document) (id : Value) : Bool :=
  docs.any fun d =>
    match Keyed.get? d "_id" with
    | some existing => existing.alike id
    | none => false

end Store

/-! ## Changing a collection -/

/-- Applies an update to the documents that a filter matches, to all of them or to the first, and
counts those that match and those that change. The first failure ends it. -/
def updateMatching (filter : Filter) (update : Document) (multi : Bool) :
    List Document → Except UpdateError (List Document × Nat × Nat)
  | [] => .ok ([], 0, 0)
  | d :: rest =>
    if filter.eval d then
      match Update.apply update d with
      | ⟨_, .error e⟩ => .error e
      | ⟨d', .ok changed⟩ =>
        let count := if changed then 1 else 0
        if multi then
          match updateMatching filter update multi rest with
          | .error e => .error e
          | .ok (rest', matched, modified) => .ok (d' :: rest', matched + 1, modified + count)
        else .ok (d' :: rest, 1, count)
    else
      match updateMatching filter update multi rest with
      | .error e => .error e
      | .ok (rest', matched, modified) => .ok (d :: rest', matched, modified)

end DocQuery
