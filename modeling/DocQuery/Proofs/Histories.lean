import DocQuery.Proofs.Places
import DocQuery.Proofs.WriteThrough

/-
  Histories of a store. A history is a list of moments, each with an event between two states: an
  action, however it ends, a seed or a dump past all connections, or a change of the files by
  others. `Happens.continues` says what every event leaves alone, and `History.replays` that a
  collection holds at the end what it held at the start, carried on by the events that write to it
  and by no others.
-/

namespace DocQuery

namespace Store

/-! ## Seeding -/

/-- Puts an identifier in front of each of some documents that has none. -/
def withIds (s : Store) (docs : List Document) : Store × List Document :=
  docs.foldl (fun (s, out) d => let (s, d) := s.withId d; (s, out ++ [d])) (s, [])

/-- The documents as they are stored when they are seeded. -/
def seeded (s : Store) (database : String) (docs : List Document) : List Document :=
  ((s.ensureDatabase database).withIds docs).2

theorem seed_eq (s : Store) (database collection : String) (docs : List Document) :
    s.seed database collection docs =
      ((s.ensureDatabase database).withIds docs).1.setDocuments database collection
        (((s.ensureDatabase database).withIds docs).1.documents database collection ++
          s.seeded database docs) := rfl

theorem withIds_databases (s : Store) (docs : List Document) :
    (s.withIds docs).1.databases = s.databases := foldl_withId_databases docs s []

theorem withIds_connections (s : Store) (docs : List Document) :
    (s.withIds docs).1.connections = s.connections :=
  foldl_withId_keeps withId_connections docs s []

theorem withIds_stats (s : Store) (docs : List Document) : (s.withIds docs).1.stats = s.stats :=
  foldl_withId_keeps withId_stats docs s []

theorem seed_connections (s : Store) (database collection : String) (docs : List Document) :
    (s.seed database collection docs).connections = s.connections := by
  rw [seed_eq]
  exact (withIds_connections _ docs).trans (s.ensureDatabase_connections database)

theorem seed_stats (s : Store) (database collection : String) (docs : List Document) :
    (s.seed database collection docs).stats = s.stats := by
  rw [seed_eq]
  exact (withIds_stats _ docs).trans (s.ensureDatabase_stats database)

theorem documents_seed_self (s : Store) (database collection : String) (docs : List Document) :
    (s.seed database collection docs).documents database collection =
      s.documents database collection ++ s.seeded database docs := by
  rw [seed_eq, documents_setDocuments_self, Engine.documents_congr (withIds_databases _ docs),
    documents_ensureDatabase]

theorem documents_seed_other (s : Store) {database collection database' collection' : String}
    (docs : List Document) (h : (database', collection') ≠ (database, collection)) :
    (s.seed database collection docs).documents database' collection' =
      s.documents database' collection' := by
  rw [seed_eq, documents_setDocuments_other _ _ h, Engine.documents_congr (withIds_databases _ docs),
    documents_ensureDatabase]

theorem has_seed_iff (s : Store) (database collection name : String) (docs : List Document) :
    (s.seed database collection docs).Has name ↔ s.Has name ∨ name = database := by
  rw [seed_eq, has_setDocuments_iff, has_congr (withIds_databases _ docs), has_ensureDatabase_iff,
    or_assoc, or_self]

end Store

namespace Engine

/-! ## What can happen -/

/-- An event in the life of a store. -/
inductive Event where
  | acted (a : Action) (outcome : Except StoreError Answer)
  | seeded (database collection : String) (docs : List Document)
  | dumped (database collection : String)
  | others

/-- An event, and the states around it. -/
structure Moment where
  before : Engine
  event : Event
  after : Engine

/-- What an event does. Others may do anything to the files. -/
inductive Happens (g : Engine) : Event → Engine → Prop where
  | acted {a : Action} {outcome : Except StoreError Answer} {g' : Engine}
      (hends : Ends g a outcome g') : Happens g (.acted a outcome) g'
  | seeded (database collection : String) (docs : List Document) :
      Happens g (.seeded database collection docs)
        { g with store := g.store.seed database collection docs }
  | dumped (database collection : String) :
      Happens g (.dumped database collection)
        { g with store := (g.store.dump database collection).1 }
  | others (files : FileTree) : Happens g .others { g with files := files }

/-- What has happened between two states, one moment after the other. -/
inductive History : Engine → List Moment → Engine → Prop where
  | start (g : Engine) : History g [] g
  | next {g g₁ g' : Engine} {e : Event} {later : List Moment} (hfirst : Happens g e g₁)
      (hlater : History g₁ later g') : History g (⟨g, e, g₁⟩ :: later) g'

/-- A history can be taken apart anywhere. -/
theorem History.of_append {g g' : Engine} {before later : List Moment}
    (h : History g (before ++ later) g') : ∃ g₁, History g before g₁ ∧ History g₁ later g' := by
  induction before generalizing g with
  | nil => exact ⟨g, .start g, h⟩
  | cons m before ih =>
    cases h with
    | next hfirst hlater =>
      obtain ⟨g₁, hbefore, hrest⟩ := ih hlater
      exact ⟨g₁, .next hfirst hbefore, hrest⟩

/-- Each moment of a history has what came before it and what came after. -/
theorem History.at_moment {g g' : Engine} {before later : List Moment} {m : Moment}
    (h : History g (before ++ m :: later) g') :
    History g before m.before ∧ Happens m.before m.event m.after ∧ History m.after later g' := by
  obtain ⟨g₁, hbefore, hrest⟩ := h.of_append
  cases hrest with
  | next hfirst hlater => exact ⟨hbefore, hfirst, hlater⟩

/-- What every event of a history keeps, the history keeps. -/
theorem History.keeps {P : Engine → Prop} {g g' : Engine} {history : List Moment}
    (h : History g history g')
    (hstep : ∀ m ∈ history, Happens m.before m.event m.after → P m.before → P m.after)
    (hg : P g) : P g' := by
  induction h with
  | start => exact hg
  | @next g g₁ g' e later hfirst _ ih =>
    refine ih ?_ (hstep ⟨g, e, g₁⟩ List.mem_cons_self hfirst hg)
    intro m hm
    exact hstep m (List.mem_cons_of_mem _ hm)

/-! ## What every event leaves alone -/

/-- The databases that connections lead to, in the order in which they were opened. -/
def targets (g : Engine) : List String := g.store.connections.map Connection.database

theorem targets_of_connection? {g : Engine} {n : Nat} {conn : Connection}
    (h : g.connection? n = some conn) : g.targets[n]? = some conn.database := by
  unfold connection? at h
  rw [targets, List.getElem?_map, h]
  rfl

/-- Two states between which documents may change and connections may close, but none is opened and
no database is mounted. -/
structure Stays (g g' : Engine) : Prop where
  workingDirectory : g'.workingDirectory = g.workingDirectory
  targets : g'.targets = g.targets
  has : ∀ {name}, g.store.Has name → g'.store.Has name
  has_of : ∀ {name}, g'.store.Has name → g.store.Has name ∨ name ∈ g.targets
  directoryOf : ∀ name, g'.store.directoryOf name = g.store.directoryOf name

section Stays

variable {g g' : Engine}

theorem Stays.of_databases (hworking : g'.workingDirectory = g.workingDirectory)
    (hdbs : g'.store.databases = g.store.databases) (htargets : g'.targets = g.targets) :
    Stays g g' where
  workingDirectory := hworking
  targets := htargets
  has hname := (Store.has_congr hdbs).mpr hname
  has_of hname := .inl ((Store.has_congr hdbs).mp hname)
  directoryOf := Store.directoryOf_congr hdbs

theorem Stays.refl (g : Engine) : Stays g g := .of_databases rfl rfl rfl

theorem Stays.of_unchanged (h : Unchanged g g') : Stays g g' :=
  .of_databases h.workingDirectory h.databases (congrArg (List.map _) h.connections)

theorem Stays.of_replaced {database collection : String} {docs : List Document}
    (h : Replaced g g' database collection docs) (htarget : database ∈ g.targets) :
    Stays g g' := by
  have hhas : ∀ name, g'.store.Has name ↔ g.store.Has name ∨ name = database := fun name =>
    (Store.has_congr h.databases).trans (g.store.has_setDocuments_iff database collection name docs)
  exact {
    workingDirectory := h.workingDirectory
    targets := congrArg (List.map _) h.connections
    has := fun hname => (hhas _).mpr (.inl hname)
    has_of := fun hname => by
      refine ((hhas _).mp hname).imp_right ?_
      rintro rfl
      exact htarget
    directoryOf := fun name => by
      rw [Store.directoryOf_congr h.databases, Store.directoryOf_setDocuments] }

end Stays

theorem stays_perform {g g' : Engine} {h : Handle} {r : Request}
    {result : Except StoreError Report} (hend : Performed g h r result g') : Stays g g' := by
  cases hend with
  | closed => exact .refl g
  | refused _ _ hsame => exact .of_unchanged hsame
  | found _ _ _ hsame => exact .of_unchanged hsame
  | unsaved _ _ _ _ hsame => exact .of_unchanged hsame
  | saved hopen _ _ _ hreplaced =>
    exact .of_replaced hreplaced
      (List.mem_of_getElem? (targets_of_connection? (databaseOf_eq_ok.mp hopen)))

theorem stays_close (g : Engine) (n : Nat) : Stays g (g.close n).2 := by
  unfold close
  split
  · next database hopen =>
    refine .of_databases rfl rfl ?_
    have hn := targets_of_connection? hopen
    show (g.store.connections.set n ⟨database, true⟩).map Connection.database = g.targets
    rw [List.map_set]
    refine List.ext_getElem? fun i => ?_
    by_cases hi : n = i
    · subst hi
      exact (List.getElem?_set_self (List.getElem?_eq_some_iff.mp hn).1).trans hn.symm
    · rw [List.getElem?_set_ne hi]
      rfl
  · exact .refl g

theorem connect_of_act {g : Engine} {uri : String} {answer : Answer}
    (h : (g.act (.connect uri)).1 = .ok answer) :
    ∃ n, answer = .connection n ∧ g.connect uri = (.ok n, (g.act (.connect uri)).2) := by
  dsimp only [act] at h ⊢
  rcases hconnect : g.connect uri with ⟨e | n, g'⟩
  · rw [hconnect] at h
    cases h
  · rw [hconnect] at h
    exact ⟨n, (Except.ok.inj h).symm, rfl⟩

/-- An action opens a connection, or all connections and databases stay. -/
theorem Ends.opens_or_stays {g g' : Engine} {a : Action} {outcome : Except StoreError Answer}
    (h : Ends g a outcome g') :
    (∃ uri n, a = .connect uri ∧ outcome = .ok (.connection n) ∧
      g.connect uri = (.ok n, g')) ∨ Stays g g' := by
  cases h with
  | disturbed during left hfails =>
    have hsame := (fails_and_unchanged hfails).2
    exact .inr (.of_unchanged
      ⟨hsame.databases, hsame.connections, hsame.stats, hsame.workingDirectory⟩)
  | done =>
    cases a with
    | connect uri =>
      cases hout : (g.act (.connect uri)).1 with
      | error e => exact .inr (.of_unchanged (fails_and_unchanged hout).2)
      | ok answer =>
        obtain ⟨n, rfl, hconnect⟩ := connect_of_act hout
        exact .inl ⟨uri, n, rfl, rfl, hconnect⟩
    | collection conn name =>
      right
      show Stays g (g.collection conn name).2
      rcases g.collection_cases conn name with ⟨-, hend⟩ | ⟨-, -, hend⟩ | ⟨-, -, hend⟩
      all_goals rw [hend]
      all_goals exact .refl g
    | request handle r => exact .inr (stays_perform (g.performed handle r))
    | close n => exact .inr (g.stays_close n)

/-! ## Opening connections -/

/-- A moment at which a connection is opened, to the place that its string names then. -/
structure Moment.Opens (m : Moment) (uri : String) (n : Nat) (place : Place) : Prop where
  event : m.event = .acted (.connect uri) (.ok (.connection n))
  names : Names m.after.files m.after.workingDirectory uri place

/-- Whether a database is seeded or looked at by its name. -/
def Moment.Mentions (m : Moment) (name : String) : Prop :=
  (∃ collection docs, m.event = .seeded name collection docs) ∨
    ∃ collection, m.event = .dumped name collection

/-- What an event can do to the databases and the connections: it opens a connection, it looks for
a database by its name, or all stay. -/
inductive Moment.Moves (m : Moment) : Prop where
  | opens {uri : String} {n : Nat} {place : Place} (hopens : m.Opens uri n place)
      (harrives : Arrives uri m.before place n m.after)
      (hconnect : m.before.connect uri = (.ok n, m.after))
  | mentions {name : String} (hmentions : m.Mentions name)
      (hworking : m.after.workingDirectory = m.before.workingDirectory)
      (hconns : m.after.store.connections = m.before.store.connections)
      (hhas : ∀ other, m.after.store.Has other ↔ m.before.store.Has other ∨ other = name)
      (hdirs : ∀ other, m.after.store.directoryOf other = m.before.store.directoryOf other)
  | stays (hstays : Stays m.before m.after)

theorem Moment.moves {m : Moment} (hm : Happens m.before m.event m.after) : m.Moves := by
  obtain ⟨g, e, g'⟩ := m
  dsimp only at hm
  cases hm with
  | acted hends =>
    rcases hends.opens_or_stays with ⟨uri, n, rfl, rfl, hconnect⟩ | hstays
    · obtain ⟨place, harrives⟩ := arrives_of_connect hconnect
      exact .opens ⟨rfl, harrives.reaches.names⟩ harrives hconnect
    · exact .stays hstays
  | seeded database collection docs =>
    exact .mentions (.inl ⟨collection, docs, rfl⟩) rfl (Store.seed_connections ..)
      (fun _ => Store.has_seed_iff ..) (fun _ => Store.directoryOf_seed ..)
  | dumped database collection =>
    exact .mentions (.inr ⟨collection, rfl⟩) rfl (Store.ensureDatabase_connections ..)
      (fun _ => Store.has_ensureDatabase_iff ..) (fun _ => Store.directoryOf_ensureDatabase ..)
  | others files => exact .stays (.of_databases rfl rfl rfl)

/-- Two states of one store, the first before the second: databases stay where they are kept, and
connections stay with their databases, which are there. -/
structure Continues (g g' : Engine) : Prop where
  workingDirectory : g'.workingDirectory = g.workingDirectory
  has : ∀ {name}, g.store.Has name → g'.store.Has name
  directoryOf : ∀ {name}, g.store.Has name → g'.store.directoryOf name = g.store.directoryOf name
  targets : ∃ opened, g'.targets = g.targets ++ opened ∧ ∀ name ∈ opened, g'.store.Has name

theorem Continues.refl (g : Engine) : Continues g g :=
  ⟨rfl, id, fun _ => rfl, [], (List.append_nil _).symm, fun _ h => absurd h List.not_mem_nil⟩

theorem Continues.trans {g g' g'' : Engine} (h : Continues g g') (h' : Continues g' g'') :
    Continues g g'' where
  workingDirectory := h'.workingDirectory.trans h.workingDirectory
  has hname := h'.has (h.has hname)
  directoryOf hname := (h'.directoryOf (h.has hname)).trans (h.directoryOf hname)
  targets := by
    obtain ⟨opened, htargets, hthere⟩ := h.targets
    obtain ⟨opened', htargets', hthere'⟩ := h'.targets
    refine ⟨opened ++ opened', by rw [htargets', htargets, List.append_assoc], ?_⟩
    intro name hname
    rcases List.mem_append.mp hname with hname | hname
    · exact h'.has (hthere name hname)
    · exact hthere' name hname

/-- A connection leads to the same database from then on. -/
theorem Continues.target {g g' : Engine} (h : Continues g g') {n : Nat} {name : String}
    (hn : g.targets[n]? = some name) : g'.targets[n]? = some name := by
  obtain ⟨opened, htargets, -⟩ := h.targets
  rw [htargets, List.getElem?_append_left (List.getElem?_eq_some_iff.mp hn).1, hn]

/-- Whether the databases of all connections are there. -/
def Wired (g : Engine) : Prop := ∀ name ∈ g.targets, g.store.Has name

theorem wired_fresh (files : FileTree) (workingDirectory : Path) (ids : Nat → ObjectId) :
    Wired (fresh files workingDirectory ids) := fun _ hname => nomatch hname

theorem Continues.wired {g g' : Engine} (h : Continues g g') (hwired : Wired g) : Wired g' := by
  obtain ⟨opened, htargets, hthere⟩ := h.targets
  intro name hname
  rw [htargets] at hname
  rcases List.mem_append.mp hname with hname | hname
  · exact h.has (hwired name hname)
  · exact hthere name hname

theorem continues_connect {g g' : Engine} {uri : String} {n : Nat} {place : Place}
    (h : g.connect uri = (.ok n, g')) (harrives : Arrives uri g place n g') :
    Continues g g' := by
  have hmounted := g.mounted_connect uri
  rw [h] at hmounted
  have hkept : ∀ {name}, g.store.Has name →
      Keyed.get? g'.store.databases name = Keyed.get? g.store.databases name := by
    intro name hname
    obtain ⟨db, hdb⟩ := Store.has_iff.mp hname
    rw [hdb, hmounted.get?_eq hdb]
  refine ⟨harrives.workingDirectory, ?_, ?_, [place.key], ?_, ?_⟩
  · intro name hname
    rw [Store.has_iff, hkept hname]
    exact Store.has_iff.mp hname
  · intro name hname
    unfold Store.directoryOf
    rw [hkept hname]
  · unfold targets
    rw [harrives.connections, List.map_append]
    rfl
  · intro name hname
    rw [List.mem_singleton.mp hname]
    exact harrives.there

/-- A store goes on through every event. -/
theorem Moment.continues {m : Moment} (hm : Happens m.before m.event m.after) :
    Continues m.before m.after := by
  have hnone : m.before.targets = m.before.targets ++ [] := (List.append_nil _).symm
  cases Moment.moves hm with
  | opens _ harrives hconnect => exact continues_connect hconnect harrives
  | mentions _ hworking hconns hhas hdirs =>
    exact ⟨hworking, fun hname => (hhas _).mpr (.inl hname), fun _ => hdirs _, [],
      (congrArg (List.map _) hconns).trans hnone, fun _ h => absurd h List.not_mem_nil⟩
  | stays hstays =>
    exact ⟨hstays.workingDirectory, hstays.has, fun _ => hstays.directoryOf _, [],
      hstays.targets.trans hnone, fun _ h => absurd h List.not_mem_nil⟩

/-- And so through a whole history. -/
theorem History.continues {g g' : Engine} {history : List Moment} (h : History g history g') :
    Continues g g' :=
  h.keeps (P := Continues g) (fun _ _ hm hg => hg.trans (Moment.continues hm)) (.refl g)

/-- A connection that is opened is opened by connecting. -/
theorem Ends.connect_eq {g g' : Engine} {uri : String} {n : Nat}
    (h : Ends g (.connect uri) (.ok (.connection n)) g') : g.connect uri = (.ok n, g') := by
  generalize hout : (Except.ok (.connection n) : Except StoreError Answer) = outcome at h
  cases h with
  | disturbed => cases hout
  | done =>
    obtain ⟨n', hn', hconnect⟩ := connect_of_act hout.symm
    cases hn'
    exact hconnect

theorem Moment.connect_eq {m : Moment} (hm : Happens m.before m.event m.after) {uri : String}
    {n : Nat} (hevent : m.event = .acted (.connect uri) (.ok (.connection n))) :
    m.before.connect uri = (.ok n, m.after) := by
  rw [hevent] at hm
  cases hm with
  | acted hends => exact hends.connect_eq

theorem Moment.Opens.arrives {m : Moment} {uri : String} {n : Nat} {place : Place}
    (h : m.Opens uri n place) (hm : Happens m.before m.event m.after) :
    Arrives uri m.before place n m.after := by
  obtain ⟨place', harrives⟩ := arrives_of_connect (Moment.connect_eq hm h.event)
  rw [h.names.unique harrives.reaches.names]
  exact harrives

section Opens

variable {g g' : Engine} {history : List Moment} (h : History g history g') {m : Moment}
  (hm : m ∈ history) {uri : String} {n : Nat}
include h hm

theorem History.happens : Happens m.before m.event m.after := by
  obtain ⟨before, later, rfl⟩ := List.append_of_mem hm
  exact h.at_moment.2.1

/-- Where connecting has succeeded, there is a place that the string names. -/
theorem History.exists_opens (hevent : m.event = .acted (.connect uri) (.ok (.connection n))) :
    ∃ place, m.Opens uri n place := by
  obtain ⟨place, harrives⟩ := arrives_of_connect (Moment.connect_eq (h.happens hm) hevent)
  exact ⟨place, hevent, harrives.reaches.names⟩

variable {place : Place} (hopens : m.Opens uri n place)
include hopens

/-- A connection stays with the database of its place, and the database stays. -/
theorem History.target_of_opens : g'.targets[n]? = some place.key ∧ g'.store.Has place.key := by
  obtain ⟨before, later, rfl⟩ := List.append_of_mem hm
  obtain ⟨-, hhappens, hlater⟩ := h.at_moment
  have harrives := hopens.arrives hhappens
  exact ⟨hlater.continues.target (targets_of_connection? harrives.connection?_eq),
    hlater.continues.has harrives.there⟩

theorem History.proper_of_opens (hworking : g.workingDirectory.Proper) : place.Proper := by
  obtain ⟨before, later, rfl⟩ := List.append_of_mem hm
  obtain ⟨hbefore, hhappens, -⟩ := h.at_moment
  have harrives := hopens.arrives hhappens
  refine harrives.reaches.proper ?_
  rw [harrives.workingDirectory, hbefore.continues.workingDirectory]
  exact hworking

end Opens

/-- A connection was there, or the event has opened it. -/
theorem Moment.opens_of_target {m : Moment} (hm : Happens m.before m.event m.after) {n : Nat}
    {name : String} (hn : m.after.targets[n]? = some name) :
    m.before.targets[n]? = some name ∨ ∃ uri place, m.Opens uri n place := by
  cases Moment.moves hm with
  | @opens uri n' place hopens harrives =>
    by_cases hnumber : n = n'
    · subst hnumber
      exact .inr ⟨uri, place, hopens⟩
    · left
      -- the new connection is the last one
      have htargets : m.after.targets = m.before.targets ++ [place.key] := by
        unfold targets
        rw [harrives.connections, List.map_append]
        rfl
      have hlast : n ≠ m.before.targets.length := by
        rw [targets, List.length_map, ← harrives.number]
        exact hnumber
      have hlength := (List.getElem?_eq_some_iff.mp hn).1
      rw [htargets, List.length_append, List.length_singleton] at hlength
      rwa [htargets, List.getElem?_append_left (by omega)] at hn
  | mentions _ _ hconns =>
    left
    unfold targets at hn ⊢
    rwa [hconns] at hn
  | stays hstays =>
    rw [hstays.targets] at hn
    exact .inl hn

/-- Every connection was there before a history, or was opened in it. -/
theorem History.opens_of_target {g g' : Engine} {history : List Moment} (h : History g history g')
    {n : Nat} {name : String} (hn : g'.targets[n]? = some name) :
    g.targets[n]? = some name ∨ ∃ m ∈ history, ∃ uri place, m.Opens uri n place := by
  refine h.keeps (P := fun g₁ => g₁.targets[n]? = some name →
    g.targets[n]? = some name ∨ ∃ m ∈ history, ∃ uri place, m.Opens uri n place) ?_ .inl hn
  intro m hmem hm hbefore hafter
  rcases Moment.opens_of_target hm hafter with hn | ⟨uri, place, hopens⟩
  · exact hbefore hn
  · exact .inr ⟨m, hmem, uri, place, hopens⟩

/-! ## What writes to a collection -/

/-- A moment at which a change of a collection goes through, and what it answers. -/
def Moment.Changes (m : Moment) (database collection : String) (r : Request) (report : Report) :
    Prop :=
  Request.IsChange r ∧ ∃ h : Handle, m.event = .acted (.request h r) (.ok (.report report)) ∧
    m.before.databaseOf h = .ok database ∧ h.collection = collection

/-- Whether an event writes to a collection: a change that goes through, or a seed. -/
def Moment.Writes (m : Moment) (database collection : String) : Prop :=
  (∃ r report, m.Changes database collection r report) ∨
    ∃ docs, m.event = .seeded database collection docs

/-- A request that goes through is answered with a report. -/
theorem Ends.report {g g' : Engine} {h : Handle} {r : Request} {answer : Answer}
    (hends : Ends g (.request h r) (.ok answer) g') : ∃ report, answer = .report report := by
  generalize hout : (Except.ok answer : Except StoreError Answer) = outcome at hends
  cases hends with
  | disturbed => cases hout
  | done =>
    dsimp only [act] at hout
    cases hresult : (g.perform h r).1 with
    | error e =>
      rw [hresult] at hout
      cases hout
    | ok report =>
      rw [hresult] at hout
      exact ⟨report, Except.ok.inj hout⟩

section Documents

variable {m : Moment} (hm : Happens m.before m.event m.after) {database collection : String}
include hm

/-- A change that goes through does to the documents what the request asks for, and to no
others. -/
theorem Moment.Changes.outcome {r : Request} {report : Report}
    (h : m.Changes database collection r report) : ∃ docs,
      r.outcome m.before.store (m.before.store.documents database collection) =
        .ok (report, docs) ∧
      m.before.save database collection docs = ⟨m.after.files, .ok ()⟩ ∧
      Leaves m.before m.after database collection docs := by
  obtain ⟨hr, handle, hevent, hopen, rfl⟩ := h
  rw [hevent] at hm
  cases hm with
  | acted hends =>
    generalize hout : (Except.ok (.report report) : Except StoreError Answer) = outcome at hends
    generalize m.after = g' at hends ⊢
    cases hends with
    | disturbed => cases hout
    | done =>
      have hperformed := m.before.performed handle r
      dsimp only [act] at hout ⊢
      generalize (m.before.perform handle r).1 = result at hperformed hout
      generalize (m.before.perform handle r).2 = g' at hperformed ⊢
      cases hperformed with
      | closed | refused | unsaved => cases hout
      | found _ hfind =>
        subst hfind
        exact hr.elim
      | saved hopen' _ houtcome hsave hreplaced =>
        cases hopen.symm.trans hopen'
        cases hout
        exact ⟨_, houtcome, hsave, hreplaced.leaves⟩

omit database collection in
/-- A request that goes through and is a change, changes the collection of its handle. -/
theorem Moment.exists_changes {h : Handle} {r : Request} {answer : Answer}
    (hevent : m.event = .acted (.request h r) (.ok answer)) (hr : Request.IsChange r) :
    ∃ report database, answer = .report report ∧ m.before.databaseOf h = .ok database ∧
      m.Changes database h.collection r report := by
  have hhappens := hm
  rw [hevent] at hhappens
  cases hhappens with
  | acted hends =>
    obtain ⟨report, rfl⟩ := hends.report
    cases hends.effect with
    | quiet hquiet =>
      rcases hquiet with ⟨e, he⟩ | hnot
      · cases he
      · exact absurd hr hnot
    | changed ha _ _ hopen =>
      cases ha
      exact ⟨report, _, rfl, hopen, hr, h, hevent, hopen, rfl⟩

theorem Moment.documents_seeded {docs : List Document}
    (h : m.event = .seeded database collection docs) :
    m.after.store.documents database collection =
      m.before.store.documents database collection ++ m.before.store.seeded database docs := by
  rw [h] at hm
  generalize m.after = g' at hm ⊢
  cases hm with
  | seeded => exact Store.documents_seed_self ..

/-- A collection of a database that is there is left alone by every event that does not write to
it. -/
theorem Moment.documents_quiet (hthere : m.before.store.Has database)
    (h : ¬ m.Writes database collection) :
    m.after.store.documents database collection =
      m.before.store.documents database collection := by
  obtain ⟨g, e, g'⟩ := m
  dsimp only at hm hthere ⊢
  cases hm with
  | acted hends =>
    cases hends.effect with
    | quiet _ _ hmounted =>
      obtain ⟨db, hdb⟩ := Store.has_iff.mp hthere
      unfold Store.documents
      rw [hdb, hmounted.get?_eq hdb]
    | @changed handle r answer database' docs ha hr hout hopen hsave hreplaced =>
      refine hreplaced.leaves.elsewhere _ _ ?_
      intro heq
      obtain ⟨rfl, rfl⟩ := Prod.mk.inj heq
      subst ha hout
      obtain ⟨report, rfl⟩ := hends.report
      exact h (.inl ⟨r, report, hr, handle, rfl, hopen, rfl⟩)
  | seeded database' collection' docs =>
    refine Store.documents_seed_other _ docs ?_
    intro heq
    obtain ⟨rfl, rfl⟩ := Prod.mk.inj heq
    exact h (.inr ⟨docs, rfl⟩)
  | dumped => exact Store.documents_ensureDatabase ..
  | others => rfl

end Documents

/-- How the documents of a collection are carried on: by each change that goes through as its
request asks, by each seed with its documents at the end, and by nothing else. -/
inductive Replays (database collection : String) :
    List Moment → List Document → List Document → Prop where
  | start (docs : List Document) : Replays database collection [] docs docs
  | changed {m : Moment} {later : List Moment} {r : Request} {report : Report}
      {docs docs₁ docs' : List Document} (hm : m.Changes database collection r report)
      (hout : r.outcome m.before.store docs = .ok (report, docs₁))
      (hlater : Replays database collection later docs₁ docs') :
      Replays database collection (m :: later) docs docs'
  | seeded {m : Moment} {later : List Moment} {new docs docs' : List Document}
      (hm : m.event = .seeded database collection new)
      (hlater : Replays database collection later
        (docs ++ m.before.store.seeded database new) docs') :
      Replays database collection (m :: later) docs docs'
  | quiet {m : Moment} {later : List Moment} {docs docs' : List Document}
      (hm : ¬ m.Writes database collection)
      (hlater : Replays database collection later docs docs') :
      Replays database collection (m :: later) docs docs'

/-- After a history a collection of a database that was there holds what the events that write to
it have made of its documents. -/
theorem History.replays {g g' : Engine} {history : List Moment} (h : History g history g')
    {database : String} (hthere : g.store.Has database) (collection : String) :
    Replays database collection history (g.store.documents database collection)
      (g'.store.documents database collection) := by
  induction h with
  | start g => exact .start _
  | @next g g₁ g' e later hfirst hlater ih =>
    have hm : Happens (Moment.mk g e g₁).before (Moment.mk g e g₁).event
      (Moment.mk g e g₁).after := hfirst
    have hrest := ih ((Moment.continues hm).has hthere)
    by_cases hwrites : (Moment.mk g e g₁).Writes database collection
    · rcases hwrites with ⟨r, report, hchanges⟩ | ⟨new, hseeded⟩
      · obtain ⟨docs, hout, -, hleaves⟩ := hchanges.outcome hm
        rw [show g₁.store.documents database collection = docs from hleaves.here] at hrest
        exact .changed hchanges hout hrest
      · rw [show g₁.store.documents database collection = _ from
          Moment.documents_seeded hm hseeded] at hrest
        exact .seeded hseeded hrest
    · rw [show g₁.store.documents database collection = _ from
        Moment.documents_quiet hm hthere hwrites] at hrest
      exact .quiet hwrites hrest

/-- Without an event that writes to it a collection stays as it is. -/
theorem Replays.eq_of_quiet {database collection : String} {history : List Moment}
    {docs docs' : List Document} (h : Replays database collection history docs docs')
    (hquiet : ∀ m ∈ history, ¬ m.Writes database collection) : docs' = docs := by
  induction h with
  | start => rfl
  | changed hm => exact absurd (.inl ⟨_, _, hm⟩) (hquiet _ List.mem_cons_self)
  | seeded hm => exact absurd (.inr ⟨_, hm⟩) (hquiet _ List.mem_cons_self)
  | quiet _ _ ih => exact ih fun m hm => hquiet m (List.mem_cons_of_mem _ hm)

end Engine
end DocQuery
