import DocQuery.Proofs.Phases
import DocQuery.Proofs.Places
import DocQuery.Proofs.Requests
import DocQuery.Proofs.Simulations

/-
  A server in the middle of a chain, for databases in memory. Nothing that the steps in front of it
  have done takes part in what follows: the session is as at the start, and of the store no more has
  changed than connections, notes and databases without documents, which no query can see
  (`SameContents`). So the run goes on side by side with one that begins at the server
  (`lockstep_driver`), and both come to the same (`run_from_server`).
-/

namespace DocQuery

/-- Connection strings of databases in memory. -/
def Address.InMemory (uri : String) : Prop := "memory://".toList <+: uri.toList

theorem Address.parse_inMemory {uri : String} (h : InMemory uri) :
    (∃ e, parse uri = .error e) ∨ ∃ name, parse uri = .ok (.memory name) := by
  obtain ⟨rest, hrest⟩ := h
  unfold parse
  rw [behind?_eq_some.mpr hrest.symm]
  dsimp only
  split
  · exact .inl ⟨_, rfl⟩
  · exact .inr ⟨_, rfl⟩

/-- The identifiers that are left to be given out behind a request that is carried out. -/
def Request.idsLeft (r : Request) (ids : Nat → ObjectId) : Nat → ObjectId :=
  match r with
  | .insert d => if Keyed.has d "_id" then ids else fun n => ids (n + 1)
  | _ => ids

/-- What a request comes to hangs on the documents, and on the identifiers that are left. -/
theorem Request.outcome_congr {s s' : Store} (h : s.ids = s'.ids) (docs : List Document)
    (r : Request) : r.outcome s docs = r.outcome s' docs := by
  cases r with
  | find | remove | update => rfl
  | insert d =>
    have hid : s.idFor d = s'.idFor d := by
      unfold Store.idFor
      rw [h]
    have hstored : (s.withId d).2 = (s'.withId d).2 := by
      unfold Store.withId
      rw [h]
      split
      · rfl
      · rfl
    unfold outcome
    dsimp only
    rw [hid, hstored]

theorem Request.documents_of_find {s : Store} {docs docs' : List Document} {filter : Document}
    {report : Report} (h : Request.outcome s docs (.find filter) = .ok (report, docs')) :
    docs' = docs := by
  dsimp only [outcome] at h
  split at h
  · cases h
  · cases h
    rfl

namespace Engine

/-- Two states in which a query of databases in memory finds the same. -/
structure SameContents (g g' : Engine) : Prop where
  left : Reachable g
  right : Reachable g'
  documents : ∀ database collection,
    g.store.documents database collection = g'.store.documents database collection
  ids : g.store.ids = g'.store.ids

namespace SameContents

variable {g g' g'' : Engine}

theorem refl (hg : Reachable g) : SameContents g g := ⟨hg, hg, fun _ _ => rfl, rfl⟩

theorem symm (h : SameContents g g') : SameContents g' g :=
  ⟨h.right, h.left, fun database collection => (h.documents database collection).symm,
    h.ids.symm⟩

theorem trans (h : SameContents g g') (h' : SameContents g' g'') : SameContents g g'' :=
  ⟨h.left, h'.right, fun database collection =>
    (h.documents database collection).trans (h'.documents database collection),
    h.ids.trans h'.ids⟩

/-- Calls that no query can see. -/
theorem note (h : SameContents g g') (record : Log.Record) :
    SameContents g (driver.note record g') :=
  h.trans ⟨h.right, h.right.note record, fun _ _ => rfl, rfl⟩

theorem close (h : SameContents g g') (conn : Nat) : SameContents g (g'.close conn).2 := by
  refine h.trans ⟨h.right, h.right.close conn, fun database collection => ?_, ?_⟩
  · exact (documents_congr (close_databases conn g') database collection).symm
  · unfold Engine.close
    split
    · rfl
    · rfl

theorem connect (h : SameContents g g') {uri : String} (huri : Address.InMemory uri) :
    SameContents g (g'.connect uri).2 := by
  have hnext := h.right.connect uri
  unfold Engine.connect at hnext ⊢
  rcases Address.parse_inMemory huri with ⟨e, hparse⟩ | ⟨name, hparse⟩
  · rw [hparse]
    exact h
  · rw [hparse] at hnext ⊢
    refine h.trans ⟨h.right, hnext, fun database collection => ?_, ?_⟩
    · exact (Store.documents_ensureDatabase g'.store name database collection).symm
    · show _ = (g'.store.ensureDatabase name).ids
      unfold Store.ensureDatabase
      split
      · rfl
      · rfl

theorem collection (h : SameContents g g') (conn : Nat) (name : String) :
    SameContents g (g'.collection conn name).2 := by
  unfold Engine.collection
  repeat' split
  all_goals exact h

end SameContents

/-! ## Requests in memory -/

theorem commit_ids {α : Type} (database collection : String)
    (stage : List Document → Except StoreError (α × List Document)) (g : Engine) :
    (g.commit database collection stage).2.store.ids = g.store.ids := by
  rcases g.commit_changed database collection stage with hc | ⟨_, _, _, hc⟩
  · rw [hc]
  · rw [hc]
    rfl

section Open

variable {g : Engine} {h : Handle} {database : String} (hopen : g.databaseOf h = .ok database)
include hopen

theorem perform_ids (r : Request) :
    (g.perform h r).2.store.ids = r.idsLeft g.store.ids := by
  cases r with
  | find filter =>
    simp only [Engine.perform, find, prepare, hopen]
    cases Filter.parse filter with
    | error e => rfl
    | ok f => rfl
  | remove filter =>
    simp only [Engine.perform, remove, prepare, hopen]
    cases Filter.parse filter with
    | error e => rfl
    | ok f =>
      have hkept := g.commit_ids database h.collection (removeStage f)
      dsimp only
      split
      · next hc => rw [hc] at hkept; exact hkept
      · next hc => rw [hc] at hkept; exact hkept
  | update filter spec multi =>
    simp only [Engine.perform, Engine.update, prepare, hopen]
    cases Filter.parse filter with
    | error e => rfl
    | ok f =>
      have hkept := g.commit_ids database h.collection (updateStage f spec multi)
      dsimp only
      split
      · next hc => rw [hc] at hkept; exact hkept
      · next hc => rw [hc] at hkept; exact hkept
  | insert d =>
    have hid : (g.store.withId d).1.ids = Request.idsLeft (.insert d) g.store.ids := by
      unfold Store.withId
      dsimp only [Request.idsLeft]
      split
      · rfl
      · rfl
    have hkept := commit_ids database h.collection (insertStage (g.store.withId d).2
      ((Keyed.get? (g.store.withId d).2 "_id").getD .null))
      { g with store := (g.store.withId d).1 }
    simp only [Engine.perform, insert, hopen]
    split
    · next hc => rw [hc] at hkept; exact hkept.trans hid
    · next hc => rw [hc] at hkept; exact hkept.trans hid

/-- In memory a request does what its outcome says and nothing else. -/
theorem perform_in_memory (hdir : g.store.directoryOf database = none) (r : Request) :
    let docs := g.store.documents database h.collection
    (g.perform h r).1 = (r.outcome g.store docs).map Prod.fst ∧
      Leaves g (g.perform h r).2 database h.collection
        (match r.outcome g.store docs with
          | .ok (_, docs') => docs'
          | .error _ => docs) := by
  intro docs
  have hend := g.performed h r
  generalize (g.perform h r).1 = answer, (g.perform h r).2 = g' at hend
  cases hend with
  | closed hclosed =>
    rw [hopen] at hclosed
    cases hclosed
  | refused hopen' hout hsame =>
    obtain rfl := Except.ok.inj (hopen.symm.trans hopen')
    rw [hout]
    exact ⟨rfl, .of_same hsame.databases _ _⟩
  | found hopen' hr hout hsame =>
    obtain rfl := Except.ok.inj (hopen.symm.trans hopen')
    subst hr
    rw [hout, Request.documents_of_find hout]
    exact ⟨rfl, .of_same hsame.databases _ _⟩
  | unsaved hopen' hr hout hsave hsame =>
    obtain rfl := Except.ok.inj (hopen.symm.trans hopen')
    unfold save at hsave
    rw [hdir] at hsave
    have hresult := congrArg CollectionFile.Written.result hsave
    cases hresult
  | saved hopen' hr hout hsave hreplaced =>
    obtain rfl := Except.ok.inj (hopen.symm.trans hopen')
    rw [hout]
    exact ⟨rfl, hreplaced.leaves⟩

end Open

/-! ## Side by side -/

/-- Two open connections to one database in memory. -/
structure Linked (g : Engine) (n : Nat) (g' : Engine) (n' : Nat) (database : String) : Prop where
  memory : '/' ∉ database.toList
  left : g.connection? n = some ⟨database, false⟩
  right : g'.connection? n' = some ⟨database, false⟩

/-- What two runs hold when they have come equally far: nothing, a connection to the same database,
or one to the same collection. -/
inductive Abreast : Run.Held Engine Nat Handle → Run.Held Engine Nat Handle → Prop where
  | unconnected {g g' : Engine} (h : SameContents g g') : Abreast ⟨none, none, g⟩ ⟨none, none, g'⟩
  | connected {g g' : Engine} {n n' : Nat} {database : String} (h : SameContents g g')
      (hlinked : Linked g n g' n' database) : Abreast ⟨some n, none, g⟩ ⟨some n', none, g'⟩
  | taken {g g' : Engine} {n n' : Nat} {database : String} (h : SameContents g g')
      (hlinked : Linked g n g' n' database) (name : String) :
      Abreast ⟨some n, some ⟨n, name⟩, g⟩ ⟨some n', some ⟨n', name⟩, g'⟩

theorem Abreast.contents {a b : Run.Held Engine Nat Handle} (h : Abreast a b) :
    SameContents a.state b.state := by
  cases h with
  | unconnected h => exact h
  | connected h => exact h
  | taken h => exact h

theorem Abreast.names_eq {a b : Run.Held Engine Nat Handle} (h : Abreast a b) :
    a.collection.map Handle.collection = b.collection.map Handle.collection := by
  cases h with
  | unconnected | connected | taken => rfl

/-- Connections to one database answer a request alike. -/
theorem SameContents.perform {g g' : Engine} {n n' : Nat} {database : String}
    (h : SameContents g g') (hlinked : Linked g n g' n' database) (name : String) (r : Request) :
    (g.perform ⟨n, name⟩ r).1 = (g'.perform ⟨n', name⟩ r).1 ∧
      SameContents (g.perform ⟨n, name⟩ r).2 (g'.perform ⟨n', name⟩ r).2 := by
  have hopen : g.databaseOf ⟨n, name⟩ = .ok database := databaseOf_eq_ok.mpr hlinked.left
  have hopen' : g'.databaseOf ⟨n', name⟩ = .ok database := databaseOf_eq_ok.mpr hlinked.right
  obtain ⟨hanswer, hleaves⟩ := perform_in_memory hopen
    (h.left.directoryOf_eq_none hlinked.memory) r
  obtain ⟨hanswer', hleaves'⟩ := perform_in_memory hopen'
    (h.right.directoryOf_eq_none hlinked.memory) r
  rw [← Request.outcome_congr h.ids, ← h.documents] at hanswer' hleaves'
  refine ⟨hanswer.trans hanswer'.symm, h.left.perform _ r, h.right.perform _ r, ?_, ?_⟩
  · intro database' collection'
    by_cases hplace : (database', collection') = (database, name)
    · cases hplace
      exact hleaves.here.trans hleaves'.here.symm
    · rw [hleaves.elsewhere _ _ hplace, hleaves'.elsewhere _ _ hplace, h.documents]
  · rw [perform_ids hopen, perform_ids hopen', h.ids]

theorem Linked.perform {g g' : Engine} {n n' : Nat} {database : String}
    (h : Linked g n g' n' database) (handle handle' : Handle) (r : Request) :
    Linked (g.perform handle r).2 n (g'.perform handle' r).2 n' database := by
  refine ⟨h.memory, ?_, ?_⟩
  · unfold connection?
    rw [(g.perform_keepsConnections handle r).1]
    exact h.left
  · unfold connection?
    rw [(g'.perform_keepsConnections handle' r).1]
    exact h.right

theorem Linked.collection {g g' : Engine} {n n' : Nat} {database : String}
    (h : Linked g n g' n' database) (name : String) :
    (∃ e, g.collection n name = (.error e, g) ∧ g'.collection n' name = (.error e, g')) ∨
    (g.collection n name = (.ok ⟨n, name⟩, g) ∧ g'.collection n' name = (.ok ⟨n', name⟩, g')) := by
  cases hname : validCollectionName name with
  | false =>
    refine .inl ⟨.invalidCollectionName name, ?_, ?_⟩
    · unfold Engine.collection
      rw [h.left, hname]
      rfl
    · unfold Engine.collection
      rw [h.right, hname]
      rfl
  | true => exact .inr ⟨collection_eq_ok h.left hname, collection_eq_ok h.right hname⟩

/-- Two runs over databases in memory that have come equally far go on alike. -/
theorem lockstep_driver : Run.Lockstep driver driver Address.InMemory Abreast where
  noteLeft record h := by
    cases h with
    | unconnected h => exact .unconnected (h.symm.note record).symm
    | connected h hlinked =>
      exact .connected (h.symm.note record).symm ⟨hlinked.memory, hlinked.left, hlinked.right⟩
    | taken h hlinked name =>
      exact .taken (h.symm.note record).symm ⟨hlinked.memory, hlinked.left, hlinked.right⟩ name
  noteRight record h := by
    cases h with
    | unconnected h => exact .unconnected (h.note record)
    | connected h hlinked =>
      exact .connected (h.note record) ⟨hlinked.memory, hlinked.left, hlinked.right⟩
    | taken h hlinked name =>
      exact .taken (h.note record) ⟨hlinked.memory, hlinked.left, hlinked.right⟩ name
  close {n} {n'} {_} {_} {g} {g'} h := by
    have hcontents : SameContents g g' := h.contents
    exact .unconnected ((hcontents.close n').symm.close n).symm
  connect {uri} huri {_} {_} {g} {g'} h := by
    cases h with
    | unconnected h =>
      have hcontents := ((h.connect huri).symm.connect huri).symm
      rcases Address.parse_inMemory huri with ⟨e, hparse⟩ | ⟨name, hparse⟩
      · have hcall : ∀ g, driver.connect uri g = (.error (.connect e), g) := by
          intro g
          show Engine.connect uri g = _
          unfold Engine.connect
          rw [hparse]
        rw [hcall, hcall]
        exact .error _ (.unconnected h)
      · obtain ⟨n, g₁, hcall, hopen, -⟩ := connect_memory hparse g
        obtain ⟨n', g₁', hcall', hopen', -⟩ := connect_memory hparse g'
        rw [hcall, hcall'] at hcontents
        rw [show driver.connect uri g = _ from hcall, show driver.connect uri g' = _ from hcall']
        exact .ok (.connected hcontents ⟨Address.slash_not_mem_memory hparse, hopen, hopen'⟩)
  collection {n} {n'} {_} {_} {g} {g'} h name := by
    show Run.Answered _ _ (g.collection n name) (g'.collection n' name)
    cases h with
    | connected h hlinked =>
      rcases hlinked.collection name with ⟨e, hcall, hcall'⟩ | ⟨hcall, hcall'⟩
      · rw [hcall, hcall']
        exact .error e (.connected h hlinked)
      · rw [hcall, hcall']
        exact .ok (.taken h hlinked name)
    | taken h hlinked before =>
      rcases hlinked.collection name with ⟨e, hcall, hcall'⟩ | ⟨hcall, hcall'⟩
      · rw [hcall, hcall']
        exact .error e (.taken h hlinked before)
      · rw [hcall, hcall']
        exact .ok (.taken h hlinked name)
  perform {conn} {conn'} {_} {_} {g} {g'} h r := by
    cases h with
    | taken h hlinked name =>
      obtain ⟨hanswer, hcontents⟩ := h.perform hlinked name r
      exact ⟨hanswer, .taken hcontents (hlinked.perform _ _ r) name⟩

/-! ## From a server on -/

/-- Two chains that come to the same from a state: in what they answer, in the documents that they
leave, in what they ask for, and in what their sessions hold at the end, of a connection and a
collection only whether there is one and which name it has. -/
structure SameRun (steps steps' : List Step) (op : Operation) (g : Engine) : Prop where
  outcome : (Run.run driver steps op g).1 = (Run.run driver steps' op g).1
  documents : ∀ database collection,
    (Run.run driver steps op g).2.store.documents database collection =
      (Run.run driver steps' op g).2.store.documents database collection
  requests : (Run.run driver.recording steps op (.start g)).2.requests =
    (Run.run driver.recording steps' op (.start g)).2.requests
  session : (Run.drive driver steps (Run.terminal driver op) g).2.1.forget =
    (Run.drive driver steps' (Run.terminal driver op) g).2.1.forget
  collection :
    (Run.drive driver steps (Run.terminal driver op) g).2.1.collection.map Handle.collection =
      (Run.drive driver steps' (Run.terminal driver op) g).2.1.collection.map Handle.collection

section Steps

variable {g : Engine} {xs ys : List Step} {uri : String}

/-- Steps leave the contents of a store as they are. -/
theorem sameContents_runSteps (hg : Reachable g)
    (huris : ∀ uri, .server uri ∈ xs → Address.InMemory uri) (total : Nat) :
    SameContents g (Run.runSteps driver total 1 xs .empty g).2.2 :=
  Run.runSteps_keep_calls (d := driver) (P := SameContents g) (fun record _ h => h.note record)
    (fun conn _ h => h.close conn) (fun uri huri _ h => h.connect (huris uri huri))
    (fun conn name _ h => h.collection conn name) total (.refl hg)

/-- Behind steps that have passed, a server and what follows end as they do from the start. -/
theorem runSteps_from_server (hg : Reachable g)
    (huris : ∀ uri', .server uri' ∈ xs ++ .server uri :: ys → Address.InMemory uri')
    {total : Nat} (hxs : (Run.runSteps driver total 1 xs .empty g).1 = .ok ()) (total' : Nat) :
    Run.EndsAlike Abreast (Run.runSteps driver total 1 (xs ++ .server uri :: ys) .empty g)
      (Run.runSteps driver total' 1 (.server uri :: ys) .empty g) := by
  have hcontents := sameContents_runSteps hg
    (fun uri huri => huris uri (List.mem_append_left _ huri)) total
  have hconsistent := Run.consistent_runSteps (d := driver) Session.consistent_empty total 1 xs g
  rcases Run.passed_or_halted driver total g xs with ⟨c, g₁, hpassed⟩ | ⟨e, c, g₁, hhalted⟩
  · rw [Run.runSteps_eq_of_passed hpassed] at hcontents hconsistent
    rw [Run.runSteps_of_passed hpassed]
    have hvacated := Run.vacate_keeps (d := driver) (P := SameContents g)
      (fun record _ h => h.note record) (fun conn _ h => h.close conn) c
      (hcontents.note ⟨.trace, Log.executionTarget,
        Run.placeText (xs.length + 1) total (Step.server uri).kind⟩)
    refine Run.runSteps_server_beside lockstep_driver
      (fun uri' huri => huris uri' (List.mem_append_right _ huri))
      (Prod.ext (Run.vacate_eq_empty hconsistent _) rfl) rfl
      (.unconnected (hvacated.symm.note _))
  · rw [Run.runSteps_of_halted hhalted] at hxs
    cases hxs

/-- Nothing of the steps in front of a server takes part in what follows. For databases in memory,
in every state that a store can be in: if those steps all pass, the chain comes to the same as the
one that begins with the server. -/
theorem run_from_server (hg : Reachable g)
    (huris : ∀ uri', .server uri' ∈ xs ++ .server uri :: ys → Address.InMemory uri')
    (hxs : (Run.runSteps driver ((xs ++ .server uri :: ys).length + 1) 1 xs .empty g).1 = .ok ())
    (op : Operation) : SameRun (xs ++ .server uri :: ys) (.server uri :: ys) op g := by
  have hsteps := runSteps_from_server hg huris hxs ((Step.server uri :: ys).length + 1)
  have hdrive := Run.drive_beside lockstep_driver hsteps op
  have hleft := run_eq_drive (xs ++ .server uri :: ys) op g
  have hright := run_eq_drive (.server uri :: ys) op g
  have hstart : Abreast ⟨none, none, g⟩ ⟨none, none, g⟩ := .unconnected (.refl hg)
  have huris' : ∀ uri', .server uri' ∈ .server uri :: ys → Address.InMemory uri' :=
    fun uri' huri => huris uri' (List.mem_append_right _ huri)
  refine ⟨?_, ?_, ?_, hdrive.beside.session, hdrive.beside.held.names_eq⟩
  · rw [hleft.1, hright.1]
    exact hdrive.outcome
  · intro database collection
    rw [documents_congr hleft.2, documents_congr hright.2]
    exact hdrive.beside.held.contents.documents database collection
  · rw [Run.run_requests_eq lockstep_driver huris hstart op,
      Run.run_requests_eq lockstep_driver huris' hstart op]
    exact Run.asked_congr hsteps op

end Steps

/-- Steps that look for full stocks and would empty them. -/
def abandoned : List Step :=
  [.server "memory://shop", .collection "items", .select "stock", .compare .equal (.int32 7),
    .assign "stock" (.int32 0)]

/-- Steps that look for one item. -/
def third : List Step := [.collection "items", .select "_id", .compare .equal (.int32 3)]

theorem run_from_server_third :
    SameRun (abandoned ++ .server "memory://shop" :: third) (.server "memory://shop" :: third) .find
      stocked ∧
    (Run.run driver (abandoned ++ .server "memory://shop" :: third) .find stocked).1 =
      .ok (.documents [[("_id", .int32 3)]]) := by
  have hg : Reachable stocked := .seed (.start .empty [] (.numbered 0)) "shop" "items" _
  have huris : ∀ uri', .server uri' ∈ abandoned ++ .server "memory://shop" :: third →
      Address.InMemory uri' := by
    intro uri' huri
    have heq : uri' = "memory://shop" := by simpa [abandoned, third] using huri
    subst heq
    show "memory://".toList <+: "memory://shop".toList
    decide
  have hsame := run_from_server hg huris (by rfl) .find
  exact ⟨hsame, hsame.outcome.trans (by rfl)⟩

end Engine
end DocQuery
