import DocQuery.Store
import DocQuery.Store.Address
import DocQuery.Store.CollectionFile

/-
  A store at work. Databases in memory live as long as the store; a database in a directory is read
  when it is first connected to, and every change to it is written before it counts.
-/

namespace DocQuery

/-- A store at work: the files around it, and the log of what it did, newest record first. -/
structure Engine where
  files : FileTree
  workingDirectory : Path
  store : Store
  log : List Log.Record

namespace Engine

/-- Adds a record to the log. -/
def note (level : Log.Level) (target text : String) (g : Engine) : Engine :=
  { g with log := ⟨level, target, text⟩ :: g.log }

def debug (text : String) (g : Engine) : Engine := g.note .debug Log.storeTarget text

def trace (text : String) (g : Engine) : Engine := g.note .trace Log.storeTarget text

/-- The connection of a number. -/
def connection? (g : Engine) (n : Nat) : Option Connection := g.store.connections[n]?

/-- Opens a connection to a database of the store. -/
def openConnection (database uri : String) (g : Engine) : Except StoreError Nat × Engine :=
  let n := g.store.connections.length
  let store := { g.store with
    connections := g.store.connections ++ [⟨database, false⟩]
    opened := g.store.opened + 1 }
  (.ok n, { g with store := store }.debug
    ("connection #" ++ toString n ++ " opened (" ++ uri ++ ")"))

/-- Under which name the store keeps the database of a directory. -/
def directoryKey (dir : Path) : String := "file://" ++ dir.text

/-- Opens a connection to the database that a connection string leads to. -/
def connect (uri : String) (g : Engine) : Except StoreError Nat × Engine :=
  match Address.parse uri with
  | .error e => (.error (.connect e), g)
  | .ok (.memory name) => openConnection name uri { g with store := g.store.ensureDatabase name }
  | .ok (.directory text) =>
    match g.files.makeDirectories g.workingDirectory text with
    | ⟨files, .error e⟩ => (.error (.io (.system e)), { g with files := files })
    | ⟨files, .ok dir⟩ =>
      let g := { g with files := files }
      let key := directoryKey dir
      match Keyed.get? g.store.databases key with
      | some _ => openConnection key uri g
      | none =>
        let loaded := CollectionFile.loadDirectory files dir
        let g := { g with log := loaded.log.reverse ++ g.log }
        match loaded.result with
        | .error e => (.error (.io e), g)
        | .ok collections =>
          let databases := Keyed.put g.store.databases key ⟨some dir, collections⟩
          openConnection key uri { g with store := { g.store with databases := databases } }

/-- Whether a name can be given to a collection. -/
def validCollectionName (name : String) : Bool :=
  let cs := name.toList
  !cs.isEmpty && !cs.any fun c => c = '/' || c = '\\' || c = '$' || c = '\x00'

/-- A handle on a collection, through an open connection. -/
def collection (conn : Nat) (name : String) (g : Engine) : Except StoreError Handle × Engine :=
  match g.connection? conn with
  | some ⟨_, false⟩ =>
    if validCollectionName name then (.ok ⟨conn, name⟩, g)
    else (.error (.invalidCollectionName name), g)
  | _ => (.error .closed, g)

/-- Closes a connection; a second time is an error. -/
def close (conn : Nat) (g : Engine) : Except StoreError Unit × Engine :=
  match g.connection? conn with
  | some ⟨database, false⟩ =>
    let store := { g.store with
      connections := g.store.connections.set conn ⟨database, true⟩
      closed := g.store.closed + 1 }
    (.ok (), { g with store := store }.debug ("connection #" ++ toString conn ++ " closed"))
  | _ => (.error .closed, g)

/-- The database of an open handle. -/
def databaseOf (h : Handle) (g : Engine) : Except StoreError String :=
  match g.connection? h.connection with
  | some ⟨database, false⟩ => .ok database
  | _ => .error .closed

/-- Changes a collection: the change is made on a copy, the copy is written if the database is
kept in a directory, and then it takes the place of the documents. Any failure leaves them. -/
def commit {α : Type} (database collection : String)
    (stage : List Document → Except StoreError (α × List Document)) (g : Engine) :
    Except StoreError α × Engine :=
  match stage (g.store.documents database collection) with
  | .error e => (.error e, g)
  | .ok (a, docs) =>
    match (Keyed.get? g.store.databases database).bind Database.directory with
    | none => (.ok a, { g with store := g.store.setDocuments database collection docs })
    | some dir =>
      match CollectionFile.write g.files dir collection docs with
      | ⟨files, .error e⟩ => (.error (.io (.system e)), { g with files := files })
      | ⟨files, .ok ()⟩ =>
        (.ok a, { g with files := files, store := g.store.setDocuments database collection docs })

/-- The database of an open handle, and a parsed filter. -/
def prepare (h : Handle) (filter : Document) (g : Engine) : Except StoreError (String × Filter) :=
  match g.databaseOf h with
  | .error e => .error e
  | .ok database =>
    match Filter.parse filter with
    | .error e => .error (.filter e)
    | .ok f => .ok (database, f)

/-- The documents that a filter matches, in order. -/
def find (h : Handle) (filter : Document) (g : Engine) :
    Except StoreError (List Document) × Engine :=
  match g.prepare h filter with
  | .error e => (.error e, g)
  | .ok (database, f) =>
    let docs := (g.store.documents database h.collection).filter f.eval
    (.ok docs, g.trace ("find on " ++ h.collection ++ " matched " ++ toString docs.length))

/-- Takes out the documents that a filter matches, and counts them. -/
def removeStage (f : Filter) (docs : List Document) : Except StoreError (Nat × List Document) :=
  let kept := docs.filter fun d => !f.eval d
  .ok (docs.length - kept.length, kept)

/-- Deletes the documents that a filter matches, and counts them. -/
def remove (h : Handle) (filter : Document) (g : Engine) : Except StoreError Nat × Engine :=
  match g.prepare h filter with
  | .error e => (.error e, g)
  | .ok (database, f) =>
    match g.commit database h.collection (removeStage f) with
    | (.error e, g) => (.error e, g)
    | (.ok n, g) =>
      (.ok n, g.trace ("remove on " ++ h.collection ++ " deleted " ++ toString n))

/-- Updates the documents that a filter matches; counts the matches and the changes. -/
def updateStage (f : Filter) (update : Document) (multi : Bool) (docs : List Document) :
    Except StoreError ((Nat × Nat) × List Document) :=
  match updateMatching f update multi docs with
  | .error e => .error (.update e)
  | .ok (docs', matched, modified) => .ok ((matched, modified), docs')

/-- Updates the documents that a filter matches, all or the first; counts the matches and the
changes. -/
def update (h : Handle) (filter update : Document) (multi : Bool) (g : Engine) :
    Except StoreError (Nat × Nat) × Engine :=
  match g.prepare h filter with
  | .error e => (.error e, g)
  | .ok (database, f) =>
    match g.commit database h.collection (updateStage f update multi) with
    | (.error e, g) => (.error e, g)
    | (.ok (matched, modified), g) =>
      (.ok (matched, modified), g.trace ("update on " ++ h.collection ++ " matched "
        ++ toString matched ++ " modified " ++ toString modified))

/-- Adds a document at the end, unless its identifier is in use. -/
def insertStage (d : Document) (id : Value) (docs : List Document) :
    Except StoreError (Unit × List Document) :=
  if Store.idInUse docs id then .error (.duplicateId id) else .ok ((), docs ++ [d])

/-- Adds a document at the end, with an identifier of its own if it brings none; gives the
identifier. -/
def insert (h : Handle) (d : Document) (g : Engine) : Except StoreError Value × Engine :=
  match g.databaseOf h with
  | .error e => (.error e, g)
  | .ok database =>
    let (store, d) := g.store.withId d
    let id := (Keyed.get? d "_id").getD .null
    match { g with store := store }.commit database h.collection (insertStage d id) with
    | (.error e, g) => (.error e, g)
    | (.ok (), g) => (.ok id, g.trace ("insert on " ++ h.collection ++ " -> " ++ id.plainText))

end Engine
end DocQuery
