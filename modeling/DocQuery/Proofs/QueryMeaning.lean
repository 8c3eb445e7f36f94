import DocQuery.Proofs.Composition
import DocQuery.Proofs.EngineStates
import DocQuery.Query

/-
  The meaning of a query, from its steps to the documents. A query that connects to a database in
  memory, takes a collection and composes clauses and assignments finds, removes or updates exactly
  the documents that satisfy all its clauses, whatever the store holds; `run_meaning` at the end
  puts together what the session gathers, what the filter document means and what the store does
  with it.
-/

namespace DocQuery

/-! ## Updating what matches -/

namespace Update

/-- Whether an update went through and changed something. -/
def Progress.changed (p : Progress) : Bool :=
  match p.result with
  | .ok changed => changed
  | .error _ => false

/-- Why an update did not go through. -/
def Progress.error? (p : Progress) : Option UpdateError :=
  match p.result with
  | .ok _ => none
  | .error e => some e

end Update

/-- An update of all matches ends with the first failure, or it goes through on each of them. -/
theorem updateMatching_all (f : Filter) (update : Document) (docs : List Document) :
    updateMatching f update true docs =
      match (docs.filter f.eval).findSome? fun d => (Update.apply update d).error? with
      | some e => .error e
      | none => .ok (docs.map (fun d => if f.eval d then (Update.apply update d).document else d),
          docs.countP f.eval, docs.countP fun d => f.eval d && (Update.apply update d).changed) := by
  induction docs with
  | nil => rfl
  | cons d rest ih =>
    unfold updateMatching
    rw [ih]
    cases hd : f.eval d with
    | false =>
      simp only [List.filter_cons, hd, Bool.false_eq_true, if_false]
      cases hfirst : (rest.filter f.eval).findSome? fun d => (Update.apply update d).error? with
      | some e => rfl
      | none => simp [hd]
    | true =>
      simp only [List.filter_cons, hd, if_true, List.findSome?_cons]
      rcases hp : Update.apply update d with ⟨d', e | changed⟩
      · rfl
      · cases hfirst : (rest.filter f.eval).findSome? fun d => (Update.apply update d).error? with
        | some e => rfl
        | none =>
          cases changed <;> simp [hd, hp, Update.Progress.changed, Update.Progress.error?]

namespace Engine

/-! ## Requests to a database in memory -/

theorem documents_congr {s s' : Store} (h : s'.databases = s.databases)
    (database collection : String) :
    s'.documents database collection = s.documents database collection := by
  unfold Store.documents
  rw [h]

/-- A store in which one collection has been given new documents, and no other has. -/
structure Leaves (g g' : Engine) (database collection : String) (docs : List Document) : Prop where
  here : g'.store.documents database collection = docs
  elsewhere : ∀ database' collection', (database', collection') ≠ (database, collection) →
    g'.store.documents database' collection' = g.store.documents database' collection'

theorem Leaves.of_setDocuments {g g' : Engine} {database collection : String}
    {docs : List Document} {s : Store} (hs : s.databases = g.store.databases)
    (h : g'.store.databases = (s.setDocuments database collection docs).databases) :
    Leaves g g' database collection docs := by
  refine ⟨?_, ?_⟩
  · rw [documents_congr h, Store.documents_setDocuments_self]
  · intro database' collection' hne
    rw [documents_congr h, Store.documents_setDocuments_other _ _ hne, documents_congr hs]

theorem Leaves.of_same {g g' : Engine} (h : g'.store.databases = g.store.databases)
    (database collection : String) :
    Leaves g g' database collection (g.store.documents database collection) :=
  ⟨documents_congr h _ _, fun _ _ _ => documents_congr h _ _⟩

/-- In memory a change is nothing but a change of the documents. -/
theorem commit_memory {α : Type} {database collection : String} {g : Engine}
    (hdir : g.store.directoryOf database = none)
    (stage : List Document → Except StoreError (α × List Document)) :
    g.commit database collection stage =
      match stage (g.store.documents database collection) with
      | .error e => (.error e, g)
      | .ok (a, docs) =>
        (.ok a, { g with store := g.store.setDocuments database collection docs }) := by
  rcases g.commit_cases database collection stage with ⟨e, hs, hc⟩ | ⟨a, docs, hs, -, hc⟩ |
    ⟨a, docs, dir, files, e, -, hd, -⟩ | ⟨a, docs, dir, files, -, hd, -⟩
  · rw [hs, hc]
  · rw [hs, hc]
  · rw [hdir] at hd; cases hd
  · rw [hdir] at hd; cases hd

section Requests

variable {h : Handle} {g : Engine} {database : String} {filter : Document} {f : Filter}

theorem perform_find (hp : g.prepare h filter = .ok (database, f)) :
    (g.perform h (.find filter)).1 =
      .ok (.documents ((g.store.documents database h.collection).filter f.eval)) ∧
    (g.perform h (.find filter)).2.store = g.store := by
  simp only [perform, find, hp]
  exact ⟨rfl, rfl⟩

theorem perform_remove (hp : g.prepare h filter = .ok (database, f))
    (hdir : g.store.directoryOf database = none) :
    (g.perform h (.remove filter)).1 =
      .ok (.deleted ((g.store.documents database h.collection).countP f.eval)) ∧
    Leaves g (g.perform h (.remove filter)).2 database h.collection
      ((g.store.documents database h.collection).filter fun d => !f.eval d) := by
  have hcount : ∀ docs : List Document,
      docs.length - (docs.filter fun d => !f.eval d).length = docs.countP f.eval := by
    intro docs
    have := List.length_eq_countP_add_countP f.eval (l := docs)
    have hnot : (docs.filter fun d => !f.eval d).length = docs.countP fun d => ¬f.eval d = true := by
      rw [List.countP_eq_length_filter]; simp
    omega
  simp only [perform, remove, hp, commit_memory hdir, removeStage, hcount]
  exact ⟨rfl, Leaves.of_setDocuments rfl rfl⟩

theorem perform_update (update : Document) (multi : Bool)
    (hp : g.prepare h filter = .ok (database, f)) (hdir : g.store.directoryOf database = none) :
    match updateMatching f update multi (g.store.documents database h.collection) with
    | .error e => (g.perform h (.update filter update multi)).1 = .error (.update e) ∧
        (g.perform h (.update filter update multi)).2.store = g.store
    | .ok (docs, matched, modified) =>
        (g.perform h (.update filter update multi)).1 = .ok (.updated matched modified) ∧
        Leaves g (g.perform h (.update filter update multi)).2 database h.collection docs := by
  cases hu : updateMatching f update multi (g.store.documents database h.collection) with
  | error e =>
    simp only [perform, Engine.update, hp, commit_memory hdir, updateStage, hu]
    exact ⟨rfl, trivial⟩
  | ok out =>
    simp only [perform, Engine.update, hp, commit_memory hdir, updateStage, hu]
    exact ⟨rfl, Leaves.of_setDocuments rfl rfl⟩

end Requests

/-! ## Up to the collection and back -/

theorem connect_memory {uri name : String} (hu : Address.parse uri = .ok (.memory name))
    (g : Engine) : ∃ n g', g.connect uri = (.ok n, g') ∧
      g'.connection? n = some ⟨name, false⟩ ∧
      g'.store.databases = (g.store.ensureDatabase name).databases := by
  refine ⟨(g.store.ensureDatabase name).connections.length,
    (openConnection name uri { g with store := g.store.ensureDatabase name }).2, ?_, ?_, rfl⟩
  · unfold connect
    rw [hu]
    rfl
  · show ((g.store.ensureDatabase name).connections ++ [⟨name, false⟩])[
      (g.store.ensureDatabase name).connections.length]? = _
    simp

theorem collection_eq_ok {n : Nat} {name database : String} {g : Engine}
    (hc : g.connection? n = some ⟨database, false⟩) (hn : validCollectionName name = true) :
    g.collection n name = (.ok ⟨n, name⟩, g) := by
  unfold collection
  rw [hc]
  simp only [hn, if_true]

theorem close_databases (n : Nat) (g : Engine) :
    (g.close n).2.store.databases = g.store.databases := by
  unfold close
  split
  · rfl
  · rfl

/-- What happens before the outcome is known decides the outcome and the documents of a run. -/
theorem run_eq_drive (steps : List Step) (op : Operation) (g : Engine) :
    (Run.run driver steps op g).1 = (Run.drive driver steps (Run.terminal driver op) g).1 ∧
    (Run.run driver steps op g).2.store.databases =
      (Run.drive driver steps (Run.terminal driver op) g).2.2.store.databases :=
  Run.run_keeps (d := driver)
    (P := fun g' => g'.store.databases =
      (Run.drive driver steps (Run.terminal driver op) g).2.2.store.databases)
    (fun _ _ h => h) (fun n g' h => (close_databases n g').trans h) steps op g rfl

/-- A session that has taken a collection and nothing else. -/
def taken (n : Nat) (name : String) : Session Nat Handle :=
  { connection := some n, collection := some ⟨n, name⟩, targetField := none, negate := none
    filter := none, updateSpec := none, multi := none, succeeded := none }

section Opening

variable {uri database name : String} {n total : Nat} {g g₁ : Engine}
  (hconnect : Engine.connect uri (Run.trace driver (Run.placeText 1 total .server) g) = (.ok n, g₁))
  (hopen : g₁.connection? n = some ⟨database, false⟩) (hn : validCollectionName name = true)
include hconnect hopen hn

/-- The first two steps of a query open a connection and take the collection. -/
theorem runSteps_opening (steps : List Step) :
    Run.runSteps driver total 1 (.server uri :: .collection name :: steps) .empty g =
      Run.runSteps driver total 3 steps (taken n name)
        (Run.trace driver (Run.placeText 2 total .collection) g₁) := by
  have hserver : Run.apply driver (.server uri) .empty
      (Run.trace driver (Run.placeText 1 total .server) g) =
        (.ok (), { taken n name with collection := none }, g₁) := by
    unfold Run.apply Run.applyServer
    simp only [Session.empty, Option.isSome_none, Bool.false_eq_true, if_false]
    rw [show driver.connect uri _ = _ from hconnect]
    rfl
  have hcollection : Run.apply driver (.collection name) { taken n name with collection := none }
      (Run.trace driver (Run.placeText 2 total .collection) g₁) =
        (.ok (), taken n name, Run.trace driver (Run.placeText 2 total .collection) g₁) := by
    have hc := collection_eq_ok (g := Run.trace driver (Run.placeText 2 total .collection) g₁)
      hopen hn
    unfold Run.apply
    simp only [Run.required, taken]
    rw [show driver.collection n name _ = _ from hc]
  rw [Run.runSteps_cons driver total 1 _ rfl hserver,
    Run.runSteps_cons driver total 2 _ rfl hcollection]

/-- The steps behind a connection and a collection succeed, the session holds what they say, and
the store has but taken notes. -/
theorem runSteps_behind {steps : List Step} (hs : Steps.Composed steps) :
    ∃ (c : Session Nat Handle) (g' : Engine), Steps.Tracks steps c ∧
      c.connection = some n ∧ c.collection = some ⟨n, name⟩ ∧ Run.Noted driver g₁ g' ∧
      Run.runSteps driver total 1 (.server uri :: .collection name :: steps) .empty g =
        (.ok (), c, g') := by
  have htracks : Steps.Tracks [] (taken n name) := ⟨rfl, rfl, rfl, rfl, rfl⟩
  obtain ⟨c, g', hrun, htr, hconn, hcoll, hnoted⟩ :=
    Steps.runSteps_tracks driver total steps 3 htracks hs.staysPut hs.placed rfl rfl
      (Run.trace driver (Run.placeText 2 total .collection) g₁)
  exact ⟨c, g', htr, hconn, hcoll, (Run.Noted.refl.note _).trans hnoted,
    (runSteps_opening hconnect hopen hn steps).trans hrun⟩

end Opening

/-- The steps of a query behind a collection in memory succeed. The session holds what they say, and
the documents are as before. -/
theorem runSteps_composed {uri database name : String}
    (hu : Address.parse uri = .ok (.memory database)) (hn : validCollectionName name = true)
    {steps : List Step} (hs : Steps.Composed steps) (total : Nat) (g : Engine) :
    ∃ (c : Session Nat Handle) (g' : Engine) (n : Nat), Steps.Tracks steps c ∧
      c.connection = some n ∧ c.collection = some ⟨n, name⟩ ∧
      g'.databaseOf ⟨n, name⟩ = .ok database ∧
      g'.store.databases = (g.store.ensureDatabase database).databases ∧
      Run.runSteps driver total 1 (.server uri :: .collection name :: steps) .empty g =
        (.ok (), c, g') := by
  obtain ⟨n, g₁, hconnect, hopen, hdbs⟩ :=
    connect_memory hu (Run.trace driver (Run.placeText 1 total .server) g)
  obtain ⟨c, g₂, htr, hconn, hcoll, hnoted, hrun⟩ := runSteps_behind hconnect hopen hn hs
  obtain ⟨hopen, hdbs⟩ : g₂.connection? n = some ⟨database, false⟩ ∧
      g₂.store.databases = (g.store.ensureDatabase database).databases :=
    hnoted.keeps (P := fun g' => g'.connection? n = some ⟨database, false⟩ ∧
      g'.store.databases = (g.store.ensureDatabase database).databases)
      (fun _ _ h => h) ⟨hopen, hdbs⟩
  exact ⟨c, g₂, n, htr, hconn, hcoll, databaseOf_eq_ok.mpr hopen, hdbs, hrun⟩

end Engine

/-! ## The last act -/

namespace Run

variable {σ κ η : Type} {d : Driver σ κ η} {steps : List Step} {op : Operation}
  {c : Session κ η} {s s' : σ}

/-- With nothing missing, the operation decides the outcome. -/
theorem drive_eq_perform
    (hrun : runSteps d (steps.length + 1) 1 steps .empty s = (.ok (), c, s'))
    (hm : c.missing op.kind = []) :
    ∃ s'', Noted d s' s'' ∧ drive d steps (terminal d op) s =
      ((perform d op c s'').1, c, (perform d op c s'').2) := by
  rcases validate_cases d c op.kind s' with ⟨-, hv⟩ | ⟨hne, -⟩
  · refine ⟨_, Noted.refl.note ⟨.trace, Log.executionTarget,
      placeText (steps.length + 1) (steps.length + 1) op.kind⟩, ?_⟩
    unfold drive terminal
    simp only [hrun, hv]
    rfl
  · exact absurd hm hne

/-- With something missing, the operation is not carried out. -/
theorem drive_eq_precondition
    (hrun : runSteps d (steps.length + 1) 1 steps .empty s = (.ok (), c, s'))
    (hm : c.missing op.kind ≠ []) :
    ∃ s'', Noted d s' s'' ∧ drive d steps (terminal d op) s =
      (.error (.precondition op.kind (c.missing op.kind)), c, s'') := by
  rcases validate_cases d c op.kind s' with ⟨h, -⟩ | ⟨-, record, hv⟩
  · exact absurd h hm
  · refine ⟨_, Noted.refl.note record, ?_⟩
    unfold drive terminal
    simp only [hrun, hv]

/-- An operation makes its one request. -/
theorem perform_eq_request {coll : η} {r : Request} (hcoll : c.collection = some coll)
    (hr : request c op = .ok r) (s : σ) :
    ∃ s', Noted d s s' ∧ perform d op c s =
      ((d.perform coll r s').1.mapError .store, (d.perform coll r s').2) := by
  refine ⟨_, Noted.refl.note ⟨.debug, Log.documentTarget, requestText op.kind r⟩, ?_⟩
  unfold perform
  rw [hcoll, hr]
  simp only [required]
  rcases hp : d.perform coll r (debug d Log.documentTarget (requestText op.kind r) s) with
    ⟨e | report, s'⟩
  · unfold debug at hp; rw [hp]; rfl
  · unfold debug at hp; rw [hp]; rfl

end Run

/-! ## The meaning of a query -/

theorem Address.slash_not_mem_memory {uri name : String} (h : parse uri = .ok (.memory name)) :
    '/' ∉ name.toList := by
  unfold parse at h
  split at h
  · next rest _ =>
    dsimp only at h
    split at h
    · cases h
    · next hslash =>
      simp only [List.contains_eq_mem, decide_eq_true_eq] at hslash
      cases h
      split
      · decide
      · simpa using hslash
  · split at h
    · cases h
    · cases h
    · cases h

namespace Steps

/-- Whether a document satisfies all clauses that the steps make. -/
def selects (steps : List Step) (d : Document) : Bool := (clauses steps).all fun c => c.holds d

/-- What the assignments of the steps make of a document. -/
def assigned (steps : List Step) (d : Document) : Update.Progress :=
  Update.apply (updateOf (assignments steps)) d

/-- What a query of these steps is to answer over a collection, and the documents it is to leave
there. Without an assignment there is no update; an update that fails on one document changes
none. -/
def meaning (steps : List Step) (docs : List Document) :
    Operation → Option (Except RunError Report × List Document)
  | .find => some (.ok (.documents (docs.filter (selects steps))), docs)
  | .remove =>
    some (.ok (.deleted (docs.countP (selects steps))), docs.filter fun d => !selects steps d)
  | .update =>
    if assignments steps = [] then
      some (.error (.precondition .update [.updateSpec, .updateOptions]), docs)
    else
      match (docs.filter (selects steps)).findSome? fun d => (assigned steps d).error? with
      | some e => some (.error (.store (.update e)), docs)
      | none =>
        some (.ok (.updated (docs.countP (selects steps))
            (docs.countP fun d => selects steps d && (assigned steps d).changed)),
          docs.map fun d => if selects steps d then (assigned steps d).document else d)
  | .insert _ => none

end Steps

namespace Engine

/-- Neither what went before nor what comes after matters, as long as it leaves the documents. -/
theorem Leaves.congr {g g₁ g₂ g₃ : Engine} {database collection : String} {docs : List Document}
    (h : Leaves g₁ g₂ database collection docs)
    (hbefore : ∀ database' collection',
      g₁.store.documents database' collection' = g.store.documents database' collection')
    (hafter : g₃.store.databases = g₂.store.databases) : Leaves g g₃ database collection docs := by
  refine ⟨?_, ?_⟩
  · rw [documents_congr hafter, h.here]
  · intro database' collection' hne
    rw [documents_congr hafter, h.elsewhere _ _ hne, hbefore]

/-- The request that a session makes which holds what the steps say, and what it does to a store. -/
theorem request_meaning {steps : List Step} (hs : Steps.Composed steps) {c : Session Nat Handle}
    (htr : Steps.Tracks steps c) {op : Operation}
    (hneed : op.kind = .update → Steps.assignments steps ≠ []) {docs : List Document}
    {answer : Except RunError Report × List Document}
    (hm : Steps.meaning steps docs op = some answer) :
    ∃ r, Run.request c op = .ok r ∧ ∀ (g : Engine) (h : Handle) (database : String),
      g.databaseOf h = .ok database → g.store.directoryOf database = none →
      g.store.documents database h.collection = docs →
        (g.perform h r).1.mapError .store = answer.1 ∧
        Leaves g (g.perform h r).2 database h.collection answer.2 := by
  obtain ⟨filter, f, hfilter, hparse, heval⟩ := Clause.parse_filterOf hs.clauses_ne_nil hs.plain
  have hfc : c.filter = some filter := by rw [htr.filter, hfilter]
  have hsel : (fun d => f.eval d) = Steps.selects steps := funext heval
  cases op with
  | find =>
    cases hm
    refine ⟨.find filter, by simp [Run.request, Run.required, hfc]; rfl, ?_⟩
    rintro g h database hopen hdir rfl
    obtain ⟨hr, hstore⟩ := perform_find (prepare_eq_ok.mpr ⟨hopen, hparse⟩)
    refine ⟨?_, Leaves.of_same (by rw [hstore]) database h.collection⟩
    rw [hr, hsel]; rfl
  | remove =>
    cases hm
    refine ⟨.remove filter, by simp [Run.request, Run.required, hfc]; rfl, ?_⟩
    rintro g h database hopen hdir rfl
    obtain ⟨hr, hleaves⟩ := perform_remove (prepare_eq_ok.mpr ⟨hopen, hparse⟩) hdir
    refine ⟨?_, by rw [← hsel]; exact hleaves⟩
    rw [hr, hsel]; rfl
  | update =>
    have hne := hneed rfl
    have hspec : c.updateSpec = some (Steps.updateOf (Steps.assignments steps)) := by
      rw [htr.updateSpec, if_neg hne]
    have hmulti : c.multi = some true := by rw [htr.multi, hspec]; rfl
    refine ⟨.update filter (Steps.updateOf (Steps.assignments steps)) true,
      by simp [Run.request, Run.required, hfc, hspec, hmulti]; rfl, ?_⟩
    rintro g h database hopen hdir rfl
    have hu := perform_update (Steps.updateOf (Steps.assignments steps)) true
      (prepare_eq_ok.mpr ⟨hopen, hparse⟩) hdir
    rw [updateMatching_all, hsel] at hu
    simp only [congrFun hsel] at hu
    simp only [Steps.meaning, if_neg hne, Steps.assigned] at hm
    split at hm
    · next e hfirst =>
      rw [hfirst] at hu
      cases hm
      exact ⟨by rw [hu.1]; rfl, Leaves.of_same (by rw [hu.2]) database h.collection⟩
    · next hfirst =>
      rw [hfirst] at hu
      cases hm
      exact ⟨by rw [hu.1]; rfl, hu.2⟩
  | insert document => cases hm

/-- What a query answers, and what it leaves of all collections, is what its steps mean: for every
state that a store can be in, every database in memory and every list of steps that makes a
query. -/
theorem run_meaning {g : Engine} (hg : g.Reachable) {uri database name : String}
    (hu : Address.parse uri = .ok (.memory database)) (hn : validCollectionName name = true)
    {steps : List Step} (hs : Steps.Composed steps) {op : Operation}
    {answer : Except RunError Report × List Document}
    (hm : Steps.meaning steps (g.store.documents database name) op = some answer) :
    (Run.run driver (.server uri :: .collection name :: steps) op g).1 = answer.1 ∧
      Leaves g (Run.run driver (.server uri :: .collection name :: steps) op g).2 database name
        answer.2 := by
  obtain ⟨c, g₁, n, htr, hconn, hcoll, hopen, hdbs, hrun⟩ :=
    runSteps_composed hu hn hs ((.server uri :: .collection name :: steps).length + 1) g
  obtain ⟨houtcome, hstore⟩ := run_eq_drive (.server uri :: .collection name :: steps) op g
  have hconn' : c.connection.isSome = true := by rw [hconn]; rfl
  have hcoll' : c.collection.isSome = true := by rw [hcoll]; rfl
  -- the documents are those of the start as long as only notes have been made
  have hsame : ∀ g', Run.Noted driver g₁ g' →
      g'.databaseOf ⟨n, name⟩ = .ok database ∧ g'.store.directoryOf database = none ∧
      ∀ database' collection', g'.store.documents database' collection' =
        g.store.documents database' collection' := by
    intro g' hnoted
    obtain ⟨hopen, hdbs⟩ := hnoted.keeps
      (P := fun g' => g'.databaseOf ⟨n, name⟩ = .ok database ∧
        g'.store.databases = (g.store.ensureDatabase database).databases)
      (fun _ _ h => h) ⟨hopen, hdbs⟩
    refine ⟨hopen, ?_, ?_⟩
    · rw [Store.directoryOf_congr hdbs, Store.directoryOf_ensureDatabase,
        hg.directoryOf_eq_none (Address.slash_not_mem_memory hu)]
    · intro database' collection'
      rw [documents_congr hdbs, Store.documents_ensureDatabase]
  by_cases hmissing : c.missing op.kind = []
  · obtain ⟨g₂, hnoted₂, hdrive⟩ := Run.drive_eq_perform hrun hmissing
    have hneed : op.kind = .update → Steps.assignments steps ≠ [] := by
      intro hkind ha
      rw [hkind, htr.missing_update hs hconn' hcoll', if_pos ha] at hmissing
      cases hmissing
    obtain ⟨r, hr, hmeaning⟩ := request_meaning hs htr hneed hm
    obtain ⟨g₃, hnoted₃, hperform⟩ := Run.perform_eq_request (d := driver) hcoll hr g₂
    obtain ⟨hopen₃, hdir₃, hdocs₃⟩ := hsame g₃ (hnoted₂.trans hnoted₃)
    obtain ⟨hanswer, hleaves⟩ := hmeaning g₃ ⟨n, name⟩ database hopen₃ hdir₃ (hdocs₃ _ _)
    rw [hdrive, hperform] at houtcome hstore
    exact ⟨houtcome.trans hanswer, hleaves.congr hdocs₃ hstore⟩
  · obtain ⟨g₂, hnoted₂, hdrive⟩ := Run.drive_eq_precondition hrun hmissing
    obtain ⟨-, -, hdocs₂⟩ := hsame g₂ hnoted₂
    rw [hdrive] at houtcome hstore
    have hleaves := (Leaves.of_same (g := g₂) rfl database name).congr hdocs₂ hstore
    have hfound := Steps.missing_eq_nil (htr.has_asked hs hconn' hcoll')
    -- only an update misses anything, and that is an assignment
    cases op with
    | find => exact absurd hfound hmissing
    | remove => exact absurd hfound hmissing
    | insert document => cases hm
    | update =>
      have hparts := htr.missing_update hs hconn' hcoll'
      by_cases ha : Steps.assignments steps = []
      · rw [if_pos ha] at hparts
        simp only [Steps.meaning, if_pos ha, Option.some.injEq] at hm
        subst hm
        rw [hdocs₂] at hleaves
        refine ⟨?_, hleaves⟩
        rw [houtcome]
        exact congrArg _ (congrArg _ hparts)
      · exact absurd (by rw [if_neg ha] at hparts; exact hparts) hmissing

/-- A store with three items in memory, two of them with a stock. -/
def stocked : Engine :=
  ⟨.empty, [], (Store.empty (.numbered 0)).seed "shop" "items"
    [[("_id", .int32 1), ("stock", .int32 1)], [("_id", .int32 2), ("stock", .int32 7)],
      [("_id", .int32 3)]], []⟩

/-- Steps that fill up every stock which is not seven. -/
def refill : List Step :=
  [.select "stock", .negate, .compare .equal (.int32 7), .assign "stock" (.int32 7)]

theorem refill_composed : Steps.Composed refill := by
  refine ⟨by decide, ?_, ⟨.compare .equal (.int32 7), by simp [refill], rfl⟩, ?_, by decide⟩
  · intro before step after h ha
    cases before with
    | nil => cases h; cases ha
    | cons s before =>
      obtain ⟨rfl, -⟩ := List.cons.inj h
      exact ⟨"stock", List.mem_cons_self⟩
  · intro field h
    simp only [refill, List.mem_cons, Step.select.injEq, reduceCtorEq, List.not_mem_nil,
      or_false] at h
    subst h
    decide

theorem run_meaning_refill :
    (Run.run driver (.server "memory://shop" :: .collection "items" :: refill) .update stocked).1 =
      .ok (.updated 2 2) ∧
    Leaves stocked
      (Run.run driver (.server "memory://shop" :: .collection "items" :: refill) .update stocked).2
      "shop" "items"
      [[("_id", .int32 1), ("stock", .int32 7)], [("_id", .int32 2), ("stock", .int32 7)],
        [("_id", .int32 3), ("stock", .int32 7)]] := by
  have hg : Reachable stocked := .seed (.start .empty [] (.numbered 0)) "shop" "items" _
  have hu : Address.parse "memory://shop" = .ok (.memory "shop") := by decide
  have hn : validCollectionName "items" = true := by decide
  have hm : Steps.meaning refill (stocked.store.documents "shop" "items") .update =
      some (.ok (.updated 2 2),
        [[("_id", .int32 1), ("stock", .int32 7)], [("_id", .int32 2), ("stock", .int32 7)],
          [("_id", .int32 3), ("stock", .int32 7)]]) := by rfl
  exact run_meaning hg hu hn refill_composed hm

end Engine
end DocQuery
