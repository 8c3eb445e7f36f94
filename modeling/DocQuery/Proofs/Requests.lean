import DocQuery.Proofs.QueryMeaning

/-
  How a request ends. What a request makes of a collection is a function of its documents; around
  it stand the check that the connection is open and, for a database that is kept in a directory,
  the write. `performed` says once all that a request can do to a store, and `outcome_eq_error_iff`
  for which reasons the documents themselves make it fail.
-/

namespace DocQuery

/-! ## What a request makes of a collection -/

namespace Store

/-- The identifier that a document has once it is stored. -/
def idFor (s : Store) (d : Document) : Value :=
  (Keyed.get? d "_id").getD (.objectId (s.ids 0))

theorem get?_withId (s : Store) (d : Document) :
    Keyed.get? (s.withId d).2 "_id" = some (s.idFor d) := by
  unfold withId idFor Keyed.has
  cases hid : Keyed.get? d "_id" with
  | none => rfl
  | some v => exact hid

theorem withId_connections (s : Store) (d : Document) :
    (s.withId d).1.connections = s.connections := by
  unfold withId
  split
  · rfl
  · rfl

theorem withId_stats (s : Store) (d : Document) : (s.withId d).1.stats = s.stats := by
  unfold withId
  split
  · rfl
  · rfl

theorem setDocuments_databases_congr {s s' : Store} (h : s'.databases = s.databases)
    (database collection : String) (docs : List Document) :
    (s'.setDocuments database collection docs).databases =
      (s.setDocuments database collection docs).databases := by
  unfold setDocuments
  rw [h]

end Store

/-- What a request answers over a collection, and the documents it is to leave there. -/
def Request.outcome (s : Store) (docs : List Document) :
    Request → Except StoreError (Report × List Document)
  | .find filter =>
    match Filter.parse filter with
    | .error e => .error (.filter e)
    | .ok f => .ok (.documents (docs.filter f.eval), docs)
  | .remove filter =>
    match Filter.parse filter with
    | .error e => .error (.filter e)
    | .ok f =>
      let kept := docs.filter fun d => !f.eval d
      .ok (.deleted (docs.length - kept.length), kept)
  | .update filter spec multi =>
    match Filter.parse filter with
    | .error e => .error (.filter e)
    | .ok f =>
      match updateMatching f spec multi docs with
      | .error e => .error (.update e)
      | .ok (docs', matched, modified) => .ok (.updated matched modified, docs')
  | .insert d =>
    if Store.idInUse docs (s.idFor d) then .error (.duplicateId (s.idFor d))
    else .ok (.inserted (s.idFor d), docs ++ [(s.withId d).2])

/-! ## Why the documents make it fail -/

/-- The filter of a request. -/
def Request.filter? : Request → Option Document
  | .find filter => some filter
  | .remove filter => some filter
  | .update filter _ _ => some filter
  | .insert _ => none

/-- An update fails with the first match that it fails on; those before it, if there are any, are
matches of an update of all. -/
theorem updateMatching_eq_error_iff {f : Filter} {update : Document} {multi : Bool}
    {docs : List Document} {e : UpdateError} :
    updateMatching f update multi docs = .error e ↔
      ∃ before d after, docs = before ++ d :: after ∧
        (∀ x ∈ before, f.eval x = true →
          multi = true ∧ ∃ changed, (Update.apply update x).result = .ok changed) ∧
        f.eval d = true ∧ (Update.apply update d).result = .error e := by
  induction docs with
  | nil =>
    constructor
    · intro h
      cases h
    · rintro ⟨before, d, after, hdocs, -⟩
      simp at hdocs
  | cons d rest ih =>
    -- the first match is the failing one, or what comes first goes through and the rest decides
    have hcons : (∃ before x after, d :: rest = before ++ x :: after ∧
          (∀ x ∈ before, f.eval x = true →
            multi = true ∧ ∃ changed, (Update.apply update x).result = .ok changed) ∧
          f.eval x = true ∧ (Update.apply update x).result = .error e) ↔
        (f.eval d = true ∧ (Update.apply update d).result = .error e) ∨
        ((f.eval d = true → multi = true ∧
            ∃ changed, (Update.apply update d).result = .ok changed) ∧
          updateMatching f update multi rest = .error e) := by
      rw [ih]
      constructor
      · rintro ⟨before, x, after, hdocs, hbefore, hmatch, hfail⟩
        cases before with
        | nil =>
          obtain ⟨rfl, rfl⟩ := List.cons.inj hdocs
          exact .inl ⟨hmatch, hfail⟩
        | cons y before =>
          obtain ⟨rfl, rfl⟩ := List.cons.inj hdocs
          exact .inr ⟨hbefore d List.mem_cons_self, before, x, after, rfl,
            fun y hy => hbefore y (List.mem_cons_of_mem _ hy), hmatch, hfail⟩
      · rintro (⟨hmatch, hfail⟩ | ⟨hd, before, x, after, rfl, hbefore, hmatch, hfail⟩)
        · exact ⟨[], d, rest, rfl, fun _ hy => absurd hy List.not_mem_nil, hmatch, hfail⟩
        · exact ⟨d :: before, x, after, rfl, List.forall_mem_cons.mpr ⟨hd, hbefore⟩, hmatch, hfail⟩
    rw [hcons, updateMatching]
    cases hd : f.eval d with
    | false =>
      cases hrest : updateMatching f update multi rest with
      | error e' => simp
      | ok out => simp
    | true =>
      rcases hp : Update.apply update d with ⟨d', e' | changed⟩
      · simp
      · cases multi with
        | false => simp
        | true =>
          cases hrest : updateMatching f update true rest with
          | error e' => simp
          | ok out => simp

/-- The reasons for which a request is refused over a collection: its filter is malformed, its
update fails on a match, or the identifier is in use. -/
inductive Request.Refused (s : Store) (docs : List Document) : Request → StoreError → Prop where
  | filter {r : Request} {filter : Document} {e : FilterError} (hr : r.filter? = some filter)
      (hparse : Filter.parse filter = .error e) : Refused s docs r (.filter e)
  | update {filter spec : Document} {multi : Bool} {f : Filter} {before after : List Document}
      {d : Document} {e : UpdateError} (hparse : Filter.parse filter = .ok f)
      (hdocs : docs = before ++ d :: after)
      (hbefore : ∀ x ∈ before, f.eval x = true →
        multi = true ∧ ∃ changed, (Update.apply spec x).result = .ok changed)
      (hmatch : f.eval d = true) (hfail : (Update.apply spec d).result = .error e) :
      Refused s docs (.update filter spec multi) (.update e)
  | duplicate {d : Document} (hused : Store.idInUse docs (s.idFor d) = true) :
      Refused s docs (.insert d) (.duplicateId (s.idFor d))

theorem Request.outcome_eq_error_iff {s : Store} {docs : List Document} {r : Request}
    {e : StoreError} : r.outcome s docs = .error e ↔ Request.Refused s docs r e := by
  constructor
  · intro h
    cases r with
    | find filter =>
      dsimp only [outcome] at h
      split at h
      · next hparse =>
        cases h
        exact .filter rfl hparse
      · cases h
    | remove filter =>
      dsimp only [outcome] at h
      split at h
      · next hparse =>
        cases h
        exact .filter rfl hparse
      · cases h
    | update filter spec multi =>
      dsimp only [outcome] at h
      split at h
      · next hparse =>
        cases h
        exact .filter rfl hparse
      · next hparse =>
        split at h
        · next hupdate =>
          cases h
          obtain ⟨before, d, after, hdocs, hbefore, hmatch, hfail⟩ :=
            updateMatching_eq_error_iff.mp hupdate
          exact .update hparse hdocs hbefore hmatch hfail
        · cases h
    | insert d =>
      dsimp only [outcome] at h
      split at h
      · next hused =>
        cases h
        exact .duplicate hused
      · cases h
  · intro h
    cases h with
    | filter hr hparse =>
      cases r with
      | find filter =>
        cases hr
        simp only [outcome, hparse]
      | remove filter =>
        cases hr
        simp only [outcome, hparse]
      | update filter spec multi =>
        cases hr
        simp only [outcome, hparse]
      | insert d => cases hr
    | update hparse hdocs hbefore hmatch hfail =>
      have hupdate := updateMatching_eq_error_iff.mpr ⟨_, _, _, hdocs, hbefore, hmatch, hfail⟩
      simp only [outcome, hparse, hupdate]
    | duplicate hused => simp only [outcome, hused, if_true]

namespace Engine

/-! ## What a request does to a store -/

/-- Writes the documents of a collection to where its database is kept, if not in memory alone. -/
def save (g : Engine) (database collection : String) (docs : List Document) :
    CollectionFile.Written :=
  match g.store.directoryOf database with
  | none => ⟨g.files, .ok ()⟩
  | some dir => CollectionFile.write g.files dir collection docs

theorem commit_eq {α : Type} (database collection : String)
    (stage : List Document → Except StoreError (α × List Document)) (g : Engine) :
    g.commit database collection stage =
      match stage (g.store.documents database collection) with
      | .error e => (.error e, g)
      | .ok (a, docs) =>
        match g.save database collection docs with
        | ⟨files, .error e⟩ => (.error (.io (.system e)), { g with files := files })
        | ⟨files, .ok ()⟩ =>
          (.ok a, { g with
            files := files, store := g.store.setDocuments database collection docs }) := by
  unfold save
  rcases g.commit_cases database collection stage with ⟨e, hs, hc⟩ | ⟨a, docs, hs, hd, hc⟩ |
    ⟨a, docs, dir, files, e, hs, hd, hw, hc⟩ | ⟨a, docs, dir, files, hs, hd, hw, hc⟩
  · rw [hc, hs]
  · rw [hc, hs, hd]
  · rw [hc, hs, hd]
    dsimp only
    rw [hw]
  · rw [hc, hs, hd]
    dsimp only
    rw [hw]

/-- Two states in which every call but for the files finds the same: the databases with all their
documents, the connections, open or closed, and how often connections were opened and closed. -/
structure Unchanged (g g' : Engine) : Prop where
  databases : g'.store.databases = g.store.databases
  connections : g'.store.connections = g.store.connections
  stats : g'.store.stats = g.store.stats
  workingDirectory : g'.workingDirectory = g.workingDirectory

theorem Unchanged.refl (g : Engine) : Unchanged g g := ⟨rfl, rfl, rfl, rfl⟩

/-- A state in which one collection has been given other documents, and nothing else has changed
but for the files. -/
structure Replaced (g g' : Engine) (database collection : String) (docs : List Document) : Prop where
  databases : g'.store.databases = (g.store.setDocuments database collection docs).databases
  connections : g'.store.connections = g.store.connections
  stats : g'.store.stats = g.store.stats
  workingDirectory : g'.workingDirectory = g.workingDirectory

theorem Replaced.leaves {g g' : Engine} {database collection : String} {docs : List Document}
    (h : Replaced g g' database collection docs) : Leaves g g' database collection docs :=
  .of_setDocuments rfl h.databases

/-- How a request ends: the connection is closed; the documents make it fail; they were only looked
at; they could not be written; they were written, if that was to be done, and replaced. -/
inductive Performed (g : Engine) (h : Handle) (r : Request) :
    Except StoreError Report → Engine → Prop where
  | closed (hclosed : g.databaseOf h = .error .closed) : Performed g h r (.error .closed) g
  | refused {database : String} {e : StoreError} {g' : Engine}
      (hopen : g.databaseOf h = .ok database)
      (hout : r.outcome g.store (g.store.documents database h.collection) = .error e)
      (hsame : Unchanged g g') (hfiles : g'.files = g.files) : Performed g h r (.error e) g'
  | found {database : String} {filter : Document} {report : Report} {docs : List Document}
      {g' : Engine} (hopen : g.databaseOf h = .ok database) (hr : r = .find filter)
      (hout : r.outcome g.store (g.store.documents database h.collection) = .ok (report, docs))
      (hsame : Unchanged g g') (hfiles : g'.files = g.files) : Performed g h r (.ok report) g'
  | unsaved {database : String} {report : Report} {docs : List Document} {e : FileError}
      {g' : Engine} (hopen : g.databaseOf h = .ok database) (hr : ∀ filter, r ≠ .find filter)
      (hout : r.outcome g.store (g.store.documents database h.collection) = .ok (report, docs))
      (hsave : g.save database h.collection docs = ⟨g'.files, .error e⟩)
      (hsame : Unchanged g g') : Performed g h r (.error (.io (.system e))) g'
  | saved {database : String} {report : Report} {docs : List Document} {g' : Engine}
      (hopen : g.databaseOf h = .ok database) (hr : ∀ filter, r ≠ .find filter)
      (hout : r.outcome g.store (g.store.documents database h.collection) = .ok (report, docs))
      (hsave : g.save database h.collection docs = ⟨g'.files, .ok ()⟩)
      (hreplaced : Replaced g g' database h.collection docs) : Performed g h r (.ok report) g'

theorem databaseOf_eq_error {h : Handle} {g : Engine} {e : StoreError}
    (he : g.databaseOf h = .error e) : e = .closed := by
  unfold databaseOf at he
  split at he
  · cases he
  · cases he
    rfl

/-- A closed connection ends every request. -/
theorem perform_closed {g : Engine} {h : Handle} (hclosed : g.databaseOf h = .error .closed)
    (r : Request) : g.perform h r = (.error .closed, g) := by
  cases r with
  | find filter => simp only [perform, find, prepare, hclosed]; rfl
  | remove filter => simp only [perform, remove, prepare, hclosed]; rfl
  | update filter spec multi => simp only [perform, Engine.update, prepare, hclosed]; rfl
  | insert d => simp only [perform, insert, hclosed]; rfl

section Open

variable {g : Engine} {h : Handle} {database : String} (hopen : g.databaseOf h = .ok database)
include hopen

/-- A malformed filter ends every request that has one. -/
theorem perform_malformed {r : Request} {filter : Document} {e : FilterError}
    (hr : r.filter? = some filter) (hparse : Filter.parse filter = .error e) :
    g.perform h r = (.error (.filter e), g) := by
  cases r with
  | find filter => cases hr; simp only [perform, find, prepare, hopen, hparse]; rfl
  | remove filter => cases hr; simp only [perform, remove, prepare, hopen, hparse]; rfl
  | update filter spec multi =>
    cases hr; simp only [perform, Engine.update, prepare, hopen, hparse]; rfl
  | insert d => cases hr

theorem performed_malformed {r : Request} {filter : Document} {e : FilterError}
    (hr : r.filter? = some filter) (hparse : Filter.parse filter = .error e) :
    Performed g h r (g.perform h r).1 (g.perform h r).2 := by
  rw [perform_malformed hopen hr hparse]
  exact .refused hopen (Request.outcome_eq_error_iff.mpr (.filter hr hparse)) (.refl g) rfl

variable {filter : Document} {f : Filter}

theorem performed_find (hparse : Filter.parse filter = .ok f) :
    Performed g h (.find filter) (g.perform h (.find filter)).1 (g.perform h (.find filter)).2 := by
  have hout : ∀ docs, Request.outcome g.store docs (.find filter) =
      .ok (.documents (docs.filter f.eval), docs) := by
    intro docs
    simp only [Request.outcome, hparse]
  simp only [perform, find, prepare, hopen, hparse]
  exact .found hopen rfl (hout _) ⟨rfl, rfl, rfl, rfl⟩ rfl

theorem performed_remove (hparse : Filter.parse filter = .ok f) :
    Performed g h (.remove filter) (g.perform h (.remove filter)).1
      (g.perform h (.remove filter)).2 := by
  let docs := g.store.documents database h.collection
  let kept := docs.filter fun d => !f.eval d
  have hout : Request.outcome g.store docs (.remove filter) =
      .ok (.deleted (docs.length - kept.length), kept) := by
    simp only [Request.outcome, hparse, kept]
  simp only [perform, remove, prepare, hopen, hparse, commit_eq, removeStage]
  rcases hsave : g.save database h.collection kept with ⟨files, e | ⟨⟩⟩
  · exact .unsaved hopen (by simp) hout hsave ⟨rfl, rfl, rfl, rfl⟩
  · exact .saved hopen (by simp) hout hsave ⟨rfl, rfl, rfl, rfl⟩

theorem performed_update (hparse : Filter.parse filter = .ok f) (spec : Document) (multi : Bool) :
    Performed g h (.update filter spec multi) (g.perform h (.update filter spec multi)).1
      (g.perform h (.update filter spec multi)).2 := by
  let docs := g.store.documents database h.collection
  simp only [perform, Engine.update, prepare, hopen, hparse, commit_eq, updateStage]
  rcases hupdate : updateMatching f spec multi docs with e | ⟨docs', matched, modified⟩
  · have hout : Request.outcome g.store docs (.update filter spec multi) = .error (.update e) := by
      simp only [Request.outcome, hparse, hupdate]
    exact .refused hopen hout (.refl g) rfl
  · have hout : Request.outcome g.store docs (.update filter spec multi) =
        .ok (.updated matched modified, docs') := by
      simp only [Request.outcome, hparse, hupdate]
    dsimp only
    rcases hsave : g.save database h.collection docs' with ⟨files, e | ⟨⟩⟩
    · exact .unsaved hopen (by simp) hout hsave ⟨rfl, rfl, rfl, rfl⟩
    · exact .saved hopen (by simp) hout hsave ⟨rfl, rfl, rfl, rfl⟩

/-- An insertion may take the number of the next identifier, even if it fails; nothing that other
calls find depends on it. -/
theorem performed_insert (d : Document) :
    Performed g h (.insert d) (g.perform h (.insert d)).1 (g.perform h (.insert d)).2 := by
  let docs := g.store.documents database h.collection
  have hdbs := g.store.withId_databases d
  have hconns := g.store.withId_connections d
  have hstats := g.store.withId_stats d
  have hdocs : (g.store.withId d).1.documents database h.collection = docs :=
    documents_congr hdbs _ _
  have hid : (Keyed.get? (g.store.withId d).2 "_id").getD .null = g.store.idFor d := by
    rw [Store.get?_withId]
    rfl
  have hwhere : ∀ docs, save { g with store := (g.store.withId d).1 } database h.collection docs =
      g.save database h.collection docs := by
    intro docs
    unfold save
    rw [Store.directoryOf_congr hdbs]
  simp only [perform, insert, hopen, commit_eq, insertStage, hid, hdocs, hwhere]
  cases hused : Store.idInUse docs (g.store.idFor d) with
  | true =>
    have hout : Request.outcome g.store docs (.insert d) =
        .error (.duplicateId (g.store.idFor d)) := by
      simp only [Request.outcome, hused, if_true]
    exact .refused hopen hout ⟨hdbs, hconns, hstats, rfl⟩ rfl
  | false =>
    let docs' := docs ++ [(g.store.withId d).2]
    have hout : Request.outcome g.store docs (.insert d) =
        .ok (.inserted (g.store.idFor d), docs') := by
      simp only [Request.outcome, hused, Bool.false_eq_true, if_false, docs']
    simp only [Bool.false_eq_true, if_false]
    rcases hsave : g.save database h.collection docs' with ⟨files, e | ⟨⟩⟩
    · exact .unsaved hopen (by simp) hout hsave ⟨hdbs, hconns, hstats, rfl⟩
    · exact .saved hopen (by simp) hout hsave
        ⟨Store.setDocuments_databases_congr hdbs _ _ _, hconns, hstats, rfl⟩

end Open

/-- Every request ends in one of these ways. -/
theorem performed (g : Engine) (h : Handle) (r : Request) :
    Performed g h r (g.perform h r).1 (g.perform h r).2 := by
  cases hopen : g.databaseOf h with
  | error e =>
    obtain rfl := databaseOf_eq_error hopen
    rw [perform_closed hopen]
    exact .closed hopen
  | ok database =>
    cases r with
    | insert d => exact performed_insert hopen d
    | find filter =>
      cases hparse : Filter.parse filter with
      | error e => exact performed_malformed hopen rfl hparse
      | ok f => exact performed_find hopen hparse
    | remove filter =>
      cases hparse : Filter.parse filter with
      | error e => exact performed_malformed hopen rfl hparse
      | ok f => exact performed_remove hopen hparse
    | update filter spec multi =>
      cases hparse : Filter.parse filter with
      | error e => exact performed_malformed hopen rfl hparse
      | ok f => exact performed_update hopen hparse spec multi

/-- A request leaves all connections and the counts of them. -/
theorem perform_keepsConnections (g : Engine) (h : Handle) (r : Request) :
    (g.perform h r).2.store.connections = g.store.connections ∧
      (g.perform h r).2.store.stats = g.store.stats := by
  have hend := g.performed h r
  generalize (g.perform h r).1 = res, (g.perform h r).2 = g' at hend
  cases hend with
  | closed hclosed => exact ⟨rfl, rfl⟩
  | refused hopen hout hsame => exact ⟨hsame.connections, hsame.stats⟩
  | found hopen hr hout hsame => exact ⟨hsame.connections, hsame.stats⟩
  | unsaved hopen hr hout hsave hsame => exact ⟨hsame.connections, hsame.stats⟩
  | saved hopen hr hout hsave hreplaced => exact ⟨hreplaced.connections, hreplaced.stats⟩

end Engine
end DocQuery
