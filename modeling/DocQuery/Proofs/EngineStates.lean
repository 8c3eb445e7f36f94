import DocQuery.Engine.Driver

/-
  The states of a store at work. What each operation does to the documents of all collections and to
  the places where databases are kept, and what therefore holds of every state that can be reached:
  a database whose name has no slash in it lives in memory.
-/

namespace DocQuery

namespace Store

/-! ## Documents and places -/

/-- Where a database is kept, if not in memory alone. -/
def directoryOf (s : Store) (database : String) : Option Path :=
  (Keyed.get? s.databases database).bind Database.directory

theorem documents_ensureDatabase (s : Store) (name database collection : String) :
    (s.ensureDatabase name).documents database collection = s.documents database collection := by
  unfold ensureDatabase
  split
  · rfl
  · next hn =>
    by_cases hd : database = name
    · subst hd
      simp [documents, hn]
    · simp only [documents, Keyed.get?_put_other _ _ hd]

theorem directoryOf_ensureDatabase (s : Store) (name database : String) :
    (s.ensureDatabase name).directoryOf database = s.directoryOf database := by
  unfold ensureDatabase
  split
  · rfl
  · next hn =>
    by_cases hd : database = name
    · subst hd
      simp [directoryOf, hn]
    · simp only [directoryOf, Keyed.get?_put_other _ _ hd]

theorem documents_setDocuments_self (s : Store) (database collection : String)
    (docs : List Document) :
    (s.setDocuments database collection docs).documents database collection = docs := by
  simp [setDocuments, documents]

theorem documents_setDocuments_other (s : Store) {database collection database' collection' : String}
    (docs : List Document) (h : (database', collection') ≠ (database, collection)) :
    (s.setDocuments database collection docs).documents database' collection' =
      s.documents database' collection' := by
  unfold setDocuments
  by_cases hd : database' = database
  · subst hd
    have hc : collection' ≠ collection := fun hc => h (by rw [hc])
    cases hg : Keyed.get? s.databases database' with
    | none => simp [documents, hg, Keyed.get?_put_other _ _ hc]
    | some db => simp [documents, hg, Keyed.get?_put_other _ _ hc]
  · simp only [documents, Keyed.get?_put_other _ _ hd]

theorem directoryOf_setDocuments (s : Store) (database collection : String) (docs : List Document)
    (name : String) :
    (s.setDocuments database collection docs).directoryOf name = s.directoryOf name := by
  unfold setDocuments
  by_cases hd : name = database
  · subst hd
    cases hg : Keyed.get? s.databases name with
    | none => simp [directoryOf, hg]
    | some db => simp [directoryOf, hg]
  · simp only [directoryOf, Keyed.get?_put_other _ _ hd]

/-- A store in which at most the documents of one collection have been replaced. -/
def Changed (s s' : Store) : Prop :=
  s' = s ∨ ∃ database collection docs, s' = s.setDocuments database collection docs

theorem Changed.directoryOf_eq {s s' : Store} (h : s.Changed s') (name : String) :
    s'.directoryOf name = s.directoryOf name := by
  rcases h with rfl | ⟨database, collection, docs, rfl⟩
  · rfl
  · exact directoryOf_setDocuments s database collection docs name

theorem withId_databases (s : Store) (d : Document) : (s.withId d).1.databases = s.databases := by
  unfold withId
  split
  · rfl
  · rfl

/-- What giving out an identifier leaves alone, giving out many leaves alone. -/
theorem foldl_withId_keeps {α : Type} {view : Store → α}
    (hview : ∀ s d, view (s.withId d).1 = view s) (docs : List Document) (s : Store)
    (out : List Document) :
    view (docs.foldl (fun (s, out) d => let (s, d) := s.withId d; (s, out ++ [d])) (s, out)).1
      = view s := by
  induction docs generalizing s out with
  | nil => rfl
  | cons d docs ih =>
    rw [List.foldl_cons]
    exact (ih _ _).trans (hview s d)

theorem foldl_withId_databases (docs : List Document) (s : Store) (out : List Document) :
    (docs.foldl (fun (s, out) d => let (s, d) := s.withId d; (s, out ++ [d])) (s, out)).1.databases
      = s.databases :=
  foldl_withId_keeps withId_databases docs s out

theorem directoryOf_congr {s s' : Store} (h : s'.databases = s.databases) (name : String) :
    s'.directoryOf name = s.directoryOf name := by
  unfold directoryOf
  rw [h]

theorem directoryOf_seed (s : Store) (database collection : String) (docs : List Document)
    (name : String) :
    (s.seed database collection docs).directoryOf name = s.directoryOf name := by
  unfold seed
  dsimp only
  rw [directoryOf_setDocuments, directoryOf_congr (foldl_withId_databases _ _ _),
    directoryOf_ensureDatabase]

/-! ## Databases that are there -/

/-- Whether there is a database of a name. -/
def Has (s : Store) (name : String) : Prop := Keyed.has s.databases name = true

theorem has_iff {s : Store} {name : String} :
    s.Has name ↔ ∃ db, Keyed.get? s.databases name = some db := Option.isSome_iff_exists

theorem has_congr {s s' : Store} (h : s'.databases = s.databases) {name : String} :
    s'.Has name ↔ s.Has name := by
  unfold Has
  rw [h]

theorem has_setDocuments_iff (s : Store) (database collection name : String)
    (docs : List Document) :
    (s.setDocuments database collection docs).Has name ↔ s.Has name ∨ name = database :=
  Keyed.has_put_iff ..

theorem has_ensureDatabase_iff (s : Store) (database name : String) :
    (s.ensureDatabase database).Has name ↔ s.Has name ∨ name = database := by
  unfold ensureDatabase
  split
  · next db hdb =>
    refine ⟨.inl, ?_⟩
    rintro (hname | rfl)
    · exact hname
    · exact has_iff.mpr ⟨db, hdb⟩
  · exact Keyed.has_put_iff ..

theorem ensureDatabase_connections (s : Store) (name : String) :
    (s.ensureDatabase name).connections = s.connections := by
  unfold ensureDatabase
  split
  · rfl
  · rfl

theorem ensureDatabase_stats (s : Store) (name : String) :
    (s.ensureDatabase name).stats = s.stats := by
  unfold ensureDatabase
  split
  · rfl
  · rfl

end Store

namespace Engine

/-! ## Operations on a collection -/

/-- How a change ends: it is refused, it goes to memory, its file cannot be written, or it is
written and then goes to memory. -/
theorem commit_cases {α : Type} (database collection : String)
    (stage : List Document → Except StoreError (α × List Document)) (g : Engine) :
    (∃ e, stage (g.store.documents database collection) = .error e ∧
      g.commit database collection stage = (.error e, g)) ∨
    (∃ a docs, stage (g.store.documents database collection) = .ok (a, docs) ∧
      g.store.directoryOf database = none ∧ g.commit database collection stage =
        (.ok a, { g with store := g.store.setDocuments database collection docs })) ∨
    (∃ a docs dir files e, stage (g.store.documents database collection) = .ok (a, docs) ∧
      g.store.directoryOf database = some dir ∧
      CollectionFile.write g.files dir collection docs = ⟨files, .error e⟩ ∧
      g.commit database collection stage = (.error (.io (.system e)), { g with files := files })) ∨
    (∃ a docs dir files, stage (g.store.documents database collection) = .ok (a, docs) ∧
      g.store.directoryOf database = some dir ∧
      CollectionFile.write g.files dir collection docs = ⟨files, .ok ()⟩ ∧
      g.commit database collection stage =
        (.ok a, { g with
          files := files, store := g.store.setDocuments database collection docs })) := by
  unfold commit
  cases hs : stage (g.store.documents database collection) with
  | error e => exact .inl ⟨e, rfl, rfl⟩
  | ok out =>
    obtain ⟨a, docs⟩ := out
    right
    cases hd : g.store.directoryOf database with
    | none =>
      left
      unfold Store.directoryOf at hd
      exact ⟨a, docs, rfl, rfl, by simp only [hd]⟩
    | some dir =>
      right
      unfold Store.directoryOf at hd
      rcases hw : CollectionFile.write g.files dir collection docs with ⟨files, e | ⟨⟩⟩
      · exact .inl ⟨a, docs, dir, files, e, rfl, rfl, hw, by simp only [hd, hw]⟩
      · exact .inr ⟨a, docs, dir, files, rfl, rfl, hw, by simp only [hd, hw]⟩

theorem commit_changed {α : Type} (database collection : String)
    (stage : List Document → Except StoreError (α × List Document)) (g : Engine) :
    g.store.Changed (g.commit database collection stage).2.store := by
  rcases g.commit_cases database collection stage with ⟨e, -, hc⟩ | ⟨a, docs, -, -, hc⟩ |
    ⟨a, docs, dir, files, e, -, -, -, hc⟩ | ⟨a, docs, dir, files, -, -, -, hc⟩
  · left; rw [hc]
  · right; exact ⟨database, collection, docs, by rw [hc]⟩
  · left; rw [hc]
  · right; exact ⟨database, collection, docs, by rw [hc]⟩

theorem databaseOf_eq_ok {h : Handle} {g : Engine} {database : String} :
    g.databaseOf h = .ok database ↔ g.connection? h.connection = some ⟨database, false⟩ := by
  unfold databaseOf
  split
  · next hc => rw [hc]; simp
  · next hn =>
    constructor
    · intro he; cases he
    · intro he; exact absurd he (hn database)

theorem prepare_eq_ok {h : Handle} {filter : Document} {g : Engine} {database : String}
    {f : Filter} : g.prepare h filter = .ok (database, f) ↔
      g.databaseOf h = .ok database ∧ Filter.parse filter = .ok f := by
  unfold prepare
  cases g.databaseOf h with
  | error e => simp
  | ok name =>
    cases Filter.parse filter with
    | error e => simp
    | ok f' => simp

/-- A request changes at most one collection, and the next identifier. -/
theorem perform_changed (h : Handle) (request : Request) (g : Engine) :
    ∃ s : Store, s.databases = g.store.databases ∧
      s.Changed (g.perform h request).2.store := by
  cases request with
  | find filter =>
    refine ⟨g.store, rfl, .inl ?_⟩
    unfold perform find
    dsimp only
    split
    · rfl
    · rfl
  | remove filter =>
    refine ⟨g.store, rfl, ?_⟩
    unfold perform remove
    dsimp only
    split
    · exact .inl rfl
    · next database f hp =>
      have hc := g.commit_changed database h.collection (removeStage f)
      split
      · next he => rw [he] at hc; exact hc
      · next he => rw [he] at hc; exact hc
  | update filter spec multi =>
    refine ⟨g.store, rfl, ?_⟩
    unfold perform update
    dsimp only
    split
    · exact .inl rfl
    · next database f hp =>
      have hc := g.commit_changed database h.collection (updateStage f spec multi)
      split
      · next he => rw [he] at hc; exact hc
      · next he => rw [he] at hc; exact hc
  | insert d =>
    cases hd : g.databaseOf h with
    | error e =>
      refine ⟨g.store, rfl, .inl ?_⟩
      simp only [perform, insert, hd]
    | ok database =>
      refine ⟨(g.store.withId d).1, g.store.withId_databases d, ?_⟩
      simp only [perform, insert, hd]
      have hc := commit_changed database h.collection (insertStage (g.store.withId d).2
        ((Keyed.get? (g.store.withId d).2 "_id").getD .null))
        { g with store := (g.store.withId d).1 }
      split
      · next he => rw [he] at hc; exact hc
      · next he => rw [he] at hc; exact hc

/-! ## States that can be reached -/

/-- The states that a store can be in: it starts empty among any files, is seeded, looked at,
connected to and worked on in any order, failing calls included, and others may change the files
meanwhile. -/
inductive Reachable : Engine → Prop where
  | start (files : FileTree) (workingDirectory : Path) (ids : Nat → ObjectId) :
      Reachable ⟨files, workingDirectory, .empty ids, []⟩
  | seed {g : Engine} (h : Reachable g) (database collection : String) (docs : List Document) :
      Reachable { g with store := g.store.seed database collection docs }
  | dump {g : Engine} (h : Reachable g) (database collection : String) :
      Reachable { g with store := (g.store.dump database collection).1 }
  | connect {g : Engine} (h : Reachable g) (uri : String) : Reachable (g.connect uri).2
  | collection {g : Engine} (h : Reachable g) (conn : Nat) (name : String) :
      Reachable (g.collection conn name).2
  | perform {g : Engine} (h : Reachable g) (handle : Handle) (request : Request) :
      Reachable (g.perform handle request).2
  | close {g : Engine} (h : Reachable g) (conn : Nat) : Reachable (g.close conn).2
  | note {g : Engine} (h : Reachable g) (record : Log.Record) :
      Reachable (g.note record.level record.target record.text)
  | files {g : Engine} (h : Reachable g) (files : FileTree) : Reachable { g with files := files }

/-- Connecting makes a database in memory of that name, or puts one under the key of a directory,
or leaves the databases alone. -/
theorem connect_databases (uri : String) (g : Engine) :
    (g.connect uri).2.store.databases = g.store.databases ∨
    (∃ name, (g.connect uri).2.store.databases = (g.store.ensureDatabase name).databases) ∨
    (∃ dir db, (g.connect uri).2.store.databases =
      Keyed.put g.store.databases (directoryKey dir) db) := by
  unfold connect
  split
  · exact .inl rfl
  · next name _ => exact .inr (.inl ⟨name, rfl⟩)
  · split
    · exact .inl rfl
    · next files dir _ =>
      dsimp only
      split
      · exact .inl rfl
      · split
        · exact .inl rfl
        · next collections _ => exact .inr (.inr ⟨dir, ⟨some dir, collections⟩, rfl⟩)

theorem slash_mem_directoryKey (dir : Path) : '/' ∈ (directoryKey dir).toList := by
  unfold directoryKey
  rw [String.toList_append]
  exact List.mem_append_left _ (by decide)

/-- A database whose name has no slash is kept in memory. -/
theorem Reachable.directoryOf_eq_none {g : Engine} (h : Reachable g) {name : String}
    (hname : '/' ∉ name.toList) : g.store.directoryOf name = none := by
  induction h with
  | start files workingDirectory ids => rfl
  | seed _ database collection docs ih => rw [← ih]; exact Store.directoryOf_seed _ _ _ _ _
  | dump _ database collection ih => rw [← ih]; exact Store.directoryOf_ensureDatabase _ _ _
  | @connect g _ uri ih =>
    rw [← ih]
    rcases g.connect_databases uri with hc | ⟨name', hc⟩ | ⟨dir, db, hc⟩
    · exact Store.directoryOf_congr hc name
    · exact (Store.directoryOf_congr hc name).trans (Store.directoryOf_ensureDatabase _ _ _)
    · have hne : name ≠ directoryKey dir := fun he => hname (he ▸ slash_mem_directoryKey dir)
      unfold Store.directoryOf
      rw [hc, Keyed.get?_put_other _ _ hne]
  | @collection g _ conn cname ih =>
    rw [← ih]
    unfold Engine.collection
    repeat' split
    all_goals rfl
  | @perform g _ handle request ih =>
    obtain ⟨s, hs, hc⟩ := g.perform_changed handle request
    rw [hc.directoryOf_eq, Store.directoryOf_congr hs, ih]
  | @close g _ conn ih =>
    rw [← ih]
    unfold Engine.close
    split
    · rfl
    · rfl
  | note _ record ih => exact ih
  | files _ files ih => exact ih

end Engine
end DocQuery
