import DocQuery.Proofs.Requests

/-
  Actions on a store, one after the other. Connecting, taking a collection, closing and the requests
  are one kind of step. `failed_action_unchanged` says exactly when a step fails, and that it then
  leaves everything as it was, whichever way it fails.
-/

namespace DocQuery.Engine

/-- What can be asked of a store. -/
inductive Action where
  | connect (uri : String)
  | collection (conn : Nat) (name : String)
  | request (h : Handle) (r : Request)
  | close (conn : Nat)

/-- The connection that an action goes through. -/
def Action.connection? : Action → Option Nat
  | connect _ => none
  | collection conn _ => some conn
  | request h _ => some h.connection
  | close conn => some conn

/-- What an action gives. -/
inductive Answer where
  | connection (conn : Nat)
  | collection (h : Handle)
  | report (r : Report)
  | closed

/-- Carries an action out. -/
def act (a : Action) (g : Engine) : Except StoreError Answer × Engine :=
  match a with
  | .connect uri => ((g.connect uri).1.map .connection, (g.connect uri).2)
  | .collection conn name => ((g.collection conn name).1.map .collection, (g.collection conn name).2)
  | .request h r => ((g.perform h r).1.map .report, (g.perform h r).2)
  | .close conn => ((g.close conn).1.map fun _ => .closed, (g.close conn).2)

/-- The state after actions, those that fail included. -/
def after (g : Engine) : List Action → Engine
  | [] => g
  | a :: actions => (g.act a).2.after actions

/-- What every action keeps, a run keeps. -/
theorem after_keeps {P : Engine → Prop} {actions : List Action}
    (hstep : ∀ a ∈ actions, ∀ g, P g → P (g.act a).2) {g : Engine} (hg : P g) :
    P (g.after actions) := by
  induction actions generalizing g with
  | nil => exact hg
  | cons a actions ih =>
    refine ih ?_ (hstep a List.mem_cons_self g hg)
    intro a' ha'
    exact hstep a' (List.mem_cons_of_mem _ ha')

/-! ## Connecting -/

/-- Why a connection string leads to no database: it cannot be read, its directory cannot be made,
or the directory is new to the store and cannot be loaded. -/
inductive Unreachable (g : Engine) (uri : String) : StoreError → Prop where
  | address {e : ConnectError} (haddress : Address.parse uri = .error e) :
      Unreachable g uri (.connect e)
  | directory {text : String} {files : FileTree} {e : FileError}
      (haddress : Address.parse uri = .ok (.directory text))
      (hmade : g.files.makeDirectories g.workingDirectory text = ⟨files, .error e⟩) :
      Unreachable g uri (.io (.system e))
  | loading {text : String} {files : FileTree} {dir : Path} {e : IoError}
      (haddress : Address.parse uri = .ok (.directory text))
      (hmade : g.files.makeDirectories g.workingDirectory text = ⟨files, .ok dir⟩)
      (hnew : Keyed.get? g.store.databases (directoryKey dir) = none)
      (hload : (CollectionFile.loadDirectory files dir).result = .error e) :
      Unreachable g uri (.io e)

theorem connect_of_unreachable {g : Engine} {uri : String} {e : StoreError}
    (h : Unreachable g uri e) : (g.connect uri).1 = .error e := by
  unfold connect
  cases h with
  | address haddress => simp only [haddress]
  | directory haddress hmade => simp only [haddress, hmade]
  | loading haddress hmade hnew hload => simp only [haddress, hmade, hnew, hload]

/-- The databases of a store after one of them has been looked for, and put there if it was not. -/
def withDatabase (databases : Keyed String Database) (name : String) (db : Database) :
    Keyed String Database :=
  match Keyed.get? databases name with
  | some _ => databases
  | none => Keyed.put databases name db

/-- A state with a new open connection, to a database that was there or has been put there. -/
structure Opened (g g' : Engine) (name : String) (db : Database) : Prop where
  databases : g'.store.databases = withDatabase g.store.databases name db
  connections : g'.store.connections = g.store.connections ++ [⟨name, false⟩]
  stats : g'.store.stats = ⟨g.store.opened + 1, g.store.closed⟩

/-- How connecting ends. -/
inductive Connecting (g : Engine) (uri : String) : Except StoreError Nat → Engine → Prop where
  | refused {e : StoreError} {g' : Engine} (hwhy : Unreachable g uri e) (hsame : Unchanged g g') :
      Connecting g uri (.error e) g'
  | opened {name : String} (db : Database) {g' : Engine} (hopened : Opened g g' name db) :
      Connecting g uri (.ok g.store.connections.length) g'

/-- Connecting ends in one of these ways. -/
theorem connecting (g : Engine) (uri : String) :
    Connecting g uri (g.connect uri).1 (g.connect uri).2 := by
  unfold connect
  split
  · next haddress => exact .refused (.address haddress) (.refl g)
  · next name haddress =>
    unfold Store.ensureDatabase openConnection
    split
    · next db hdb => exact .opened db ⟨by simp only [withDatabase, hdb]; rfl, rfl, rfl⟩
    · next hnew =>
      exact .opened ⟨none, []⟩ ⟨by simp only [withDatabase, hnew]; rfl, rfl, rfl⟩
  · next text haddress =>
    split
    · next files e hmade => exact .refused (.directory haddress hmade) ⟨rfl, rfl, rfl, rfl⟩
    · next files dir hmade =>
      dsimp only
      split
      · next db hdb => exact .opened db ⟨by simp only [withDatabase, hdb]; rfl, rfl, rfl⟩
      · next hnew =>
        split
        · next e hload => exact .refused (.loading haddress hmade hnew hload) ⟨rfl, rfl, rfl, rfl⟩
        · next collections hload =>
          exact .opened ⟨some dir, collections⟩
            ⟨by simp only [withDatabase, hnew]; rfl, rfl, rfl⟩

/-! ## Failing -/

/-- Whether a connection can be used. -/
def IsOpen (g : Engine) (conn : Nat) : Prop :=
  ∃ database, g.connection? conn = some ⟨database, false⟩

theorem databaseOf_eq_closed {g : Engine} {h : Handle} :
    g.databaseOf h = .error .closed ↔ ¬ g.IsOpen h.connection := by
  unfold IsOpen
  simp only [← databaseOf_eq_ok]
  cases hd : g.databaseOf h with
  | ok database => simp
  | error e => simp [databaseOf_eq_error hd]

/-- The reasons for which an action fails. -/
inductive Fails (g : Engine) : Action → StoreError → Prop where
  /-- The connection string leads to no database. -/
  | unreachable {uri : String} {e : StoreError} (hwhy : Unreachable g uri e) :
      Fails g (.connect uri) e
  /-- The connection is closed, or there is none of that number. -/
  | closed {a : Action} {conn : Nat} (ha : a.connection? = some conn) (hclosed : ¬ g.IsOpen conn) :
      Fails g a .closed
  /-- No collection can have the name. -/
  | name {conn : Nat} {name : String} (hopen : g.IsOpen conn)
      (hname : validCollectionName name = false) :
      Fails g (.collection conn name) (.invalidCollectionName name)
  /-- The documents of the collection do not admit the request, or its filter is malformed. -/
  | refused {h : Handle} {r : Request} {database : String} {e : StoreError}
      (hopen : g.databaseOf h = .ok database)
      (hwhy : r.Refused g.store (g.store.documents database h.collection) e) :
      Fails g (.request h r) e
  /-- The changed documents could not be written. -/
  | unsaved {h : Handle} {r : Request} {database : String} {report : Report}
      {docs : List Document} {files : FileTree} {e : FileError}
      (hopen : g.databaseOf h = .ok database) (hr : ∀ filter, r ≠ .find filter)
      (hout : r.outcome g.store (g.store.documents database h.collection) = .ok (report, docs))
      (hsave : g.save database h.collection docs = ⟨files, .error e⟩) :
      Fails g (.request h r) (.io (.system e))

theorem map_eq_error {α β : Type} {f : α → β} {x : Except StoreError α} {e : StoreError} :
    x.map f = .error e ↔ x = .error e := by
  cases x with
  | error e' => exact ⟨fun h => congrArg Except.error (Except.error.inj h), fun h => h ▸ rfl⟩
  | ok a => exact ⟨nofun, nofun⟩

theorem not_isOpen {g : Engine} {conn : Nat}
    (h : ∀ database, g.connection? conn = some ⟨database, false⟩ → False) : ¬ g.IsOpen conn := by
  rintro ⟨database, hopen⟩
  exact h database hopen

theorem collection_cases (conn : Nat) (name : String) (g : Engine) :
    (¬ g.IsOpen conn ∧ g.collection conn name = (.error .closed, g)) ∨
    (g.IsOpen conn ∧ validCollectionName name = false ∧
      g.collection conn name = (.error (.invalidCollectionName name), g)) ∨
    (g.IsOpen conn ∧ validCollectionName name = true ∧
      g.collection conn name = (.ok ⟨conn, name⟩, g)) := by
  unfold collection
  split
  · next database hopen =>
    split
    · next hname => exact .inr (.inr ⟨⟨database, hopen⟩, hname, rfl⟩)
    · next hname => exact .inr (.inl ⟨⟨database, hopen⟩, by simpa using hname, rfl⟩)
  · next hclosed => exact .inl ⟨not_isOpen hclosed, rfl⟩

theorem close_cases (conn : Nat) (g : Engine) :
    (¬ g.IsOpen conn ∧ g.close conn = (.error .closed, g)) ∨
    (g.IsOpen conn ∧ (g.close conn).1 = .ok ()) := by
  unfold close
  split
  · next database hopen => exact .inr ⟨⟨database, hopen⟩, rfl⟩
  · next hclosed => exact .inl ⟨not_isOpen hclosed, rfl⟩

/-- An action that fails does so for one of the reasons, and changes nothing. -/
theorem fails_and_unchanged {g : Engine} {a : Action} {e : StoreError}
    (h : (g.act a).1 = .error e) : Fails g a e ∧ Unchanged g (g.act a).2 := by
  cases a with
  | connect uri =>
    have hend := g.connecting uri
    rw [map_eq_error.mp h] at hend
    cases hend with
    | refused hwhy hsame => exact ⟨.unreachable hwhy, hsame⟩
  | collection conn name =>
    show _ ∧ Unchanged g (g.collection conn name).2
    have herror : (g.collection conn name).1 = .error e := map_eq_error.mp h
    rcases g.collection_cases conn name with ⟨hclosed, hend⟩ | ⟨hopen, hname, hend⟩ | ⟨-, -, hend⟩
    · rw [hend] at herror ⊢
      cases herror
      exact ⟨.closed rfl hclosed, .refl g⟩
    · rw [hend] at herror ⊢
      cases herror
      exact ⟨.name hopen hname, .refl g⟩
    · rw [hend] at herror
      cases herror
  | request handle r =>
    show _ ∧ Unchanged g (g.perform handle r).2
    have hend := g.performed handle r
    rw [map_eq_error.mp h] at hend
    generalize (g.perform handle r).2 = g' at hend
    cases hend with
    | closed hclosed => exact ⟨.closed rfl (databaseOf_eq_closed.mp hclosed), .refl g⟩
    | refused hopen hout hsame hfiles =>
      exact ⟨.refused hopen (Request.outcome_eq_error_iff.mp hout), hsame⟩
    | unsaved hopen hr hout hsave hsame => exact ⟨.unsaved hopen hr hout hsave, hsame⟩
  | close conn =>
    show _ ∧ Unchanged g (g.close conn).2
    have herror : (g.close conn).1 = .error e := map_eq_error.mp h
    rcases g.close_cases conn with ⟨hclosed, hend⟩ | ⟨-, hend⟩
    · rw [hend] at herror ⊢
      cases herror
      exact ⟨.closed rfl hclosed, .refl g⟩
    · rw [hend] at herror
      cases herror

section Request

variable {g g' : Engine} {h : Handle} {r : Request} {database : String}
  {res : Except StoreError Report} (hend : Performed g h r res g')
  (hopen : g.databaseOf h = .ok database)
include hend hopen

theorem Performed.eq_error_of_refused {e : StoreError}
    (hout : r.outcome g.store (g.store.documents database h.collection) = .error e) :
    res = .error e := by
  cases hend with
  | closed hclosed => cases hopen.symm.trans hclosed
  | refused hopen' hout' =>
    cases hopen.symm.trans hopen'
    cases hout.symm.trans hout'
    rfl
  | found hopen' hr hout' =>
    cases hopen.symm.trans hopen'
    cases hout.symm.trans hout'
  | unsaved hopen' hr hout' =>
    cases hopen.symm.trans hopen'
    cases hout.symm.trans hout'
  | saved hopen' hr hout' =>
    cases hopen.symm.trans hopen'
    cases hout.symm.trans hout'

theorem Performed.eq_error_of_unsaved {report : Report} {docs : List Document} {files : FileTree}
    {e : FileError} (hr : ∀ filter, r ≠ .find filter)
    (hout : r.outcome g.store (g.store.documents database h.collection) = .ok (report, docs))
    (hsave : g.save database h.collection docs = ⟨files, .error e⟩) :
    res = .error (.io (.system e)) := by
  cases hend with
  | closed hclosed => cases hopen.symm.trans hclosed
  | refused hopen' hout' =>
    cases hopen.symm.trans hopen'
    cases hout.symm.trans hout'
  | found hopen' hfind => exact absurd hfind (hr _)
  | unsaved hopen' _ hout' hsave' =>
    cases hopen.symm.trans hopen'
    cases hout.symm.trans hout'
    cases hsave.symm.trans hsave'
    rfl
  | saved hopen' _ hout' hsave' =>
    cases hopen.symm.trans hopen'
    cases hout.symm.trans hout'
    cases hsave.symm.trans hsave'

end Request

/-- Each of the reasons makes an action fail. -/
theorem act_of_fails {g : Engine} {a : Action} {e : StoreError} (h : Fails g a e) :
    (g.act a).1 = .error e := by
  cases h with
  | unreachable hwhy => exact map_eq_error.mpr (connect_of_unreachable hwhy)
  | @closed a conn ha hclosed =>
    cases a with
    | connect uri => cases ha
    | collection conn name =>
      cases ha
      refine map_eq_error.mpr ?_
      rcases g.collection_cases conn name with ⟨-, hend⟩ | ⟨hopen, -⟩ | ⟨hopen, -⟩
      · rw [hend]
      · exact absurd hopen hclosed
      · exact absurd hopen hclosed
    | request handle r =>
      cases ha
      refine map_eq_error.mpr ?_
      rw [perform_closed (databaseOf_eq_closed.mpr hclosed)]
    | close conn =>
      cases ha
      refine map_eq_error.mpr ?_
      rcases g.close_cases conn with ⟨-, hend⟩ | ⟨hopen, -⟩
      · rw [hend]
      · exact absurd hopen hclosed
  | @name conn name hopen hname =>
    refine map_eq_error.mpr ?_
    obtain ⟨database, hconn⟩ := hopen
    simp only [collection, hconn, hname, Bool.false_eq_true, if_false]
  | @refused handle r database e hopen hwhy =>
    refine map_eq_error.mpr ?_
    exact (g.performed handle r).eq_error_of_refused hopen (Request.outcome_eq_error_iff.mpr hwhy)
  | @unsaved handle r database report docs files e hopen hr hout hsave =>
    refine map_eq_error.mpr ?_
    exact (g.performed handle r).eq_error_of_unsaved hopen hr hout hsave

/-- An action fails for the reasons listed and for no other, and one that fails changes nothing: no
document of any database, no database, no connection and no count of them. So it is for every
state, also for an update that has already gone through on other documents and for a change that
could not be written. -/
theorem failed_action_unchanged (g : Engine) (a : Action) (e : StoreError) :
    ((g.act a).1 = .error e ↔ Fails g a e) ∧
      ((g.act a).1 = .error e → Unchanged g (g.act a).2) :=
  ⟨⟨fun h => (fails_and_unchanged h).1, act_of_fails⟩, fun h => (fails_and_unchanged h).2⟩

/-- A store with two items, of which only the first has a size with parts. -/
def sized : Engine :=
  (Engine.connect "memory://shop" ⟨.empty, [], (Store.empty (.numbered 0)).seed "shop" "items"
    [[("_id", .int32 1), ("size", .document [("height", .int32 3)])],
      [("_id", .int32 2), ("size", .int32 5)]], []⟩).2

/-- Sets the width of all items, which the second one does not admit. -/
def widen : Action :=
  .request ⟨0, "items"⟩ (.update [] [("$set", .document [("size.width", .int32 4)])] true)

theorem failed_action_unchanged_widen :
    (sized.act widen).1 = .error (.update (.notDocument "size.width" "size")) ∧
      Unchanged sized (sized.act widen).2 := by
  have hfails : (sized.act widen).1 = .error (.update (.notDocument "size.width" "size")) := by rfl
  exact ⟨hfails, (failed_action_unchanged sized widen _).2 hfails⟩

end DocQuery.Engine
