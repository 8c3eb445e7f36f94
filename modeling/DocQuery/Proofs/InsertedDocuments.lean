import DocQuery.Proofs.Actions
import DocQuery.Proofs.Endings
import DocQuery.Proofs.Places
import DocQuery.Proofs.ValueEquality

/-
  A document that has been inserted can be found again by its identifier. Two runs have to fit
  together: the insertion refuses an identifier that is in use, and the query looks for it through a
  filter that is put together and parsed. `insert_then_find` says that both ask the same of every
  document, so that the new one is found and no other.
-/

namespace DocQuery

/-- The value at a name without dots is that of the field. -/
theorem FieldPath.find?_id (d : Document) : find? d "_id" = Keyed.get? d "_id" := by
  unfold find?
  rw [show segments "_id" = ["_id"] by decide]
  rfl

/-- A document as it is stored under an identifier: as it came, or with the identifier in front. -/
def Document.under (d : Document) (id : Value) : Document :=
  if Keyed.has d "_id" then d else ("_id", id) :: d

theorem Store.withId_eq_under (s : Store) (d : Document) :
    (s.withId d).2 = Document.under d (s.idFor d) := by
  unfold withId Document.under idFor
  cases hhas : Keyed.has d "_id" with
  | true => rfl
  | false =>
    have hnone : Keyed.get? d "_id" = none := Option.isNone_iff_eq_none.mp
      (Option.isSome_eq_false_iff.mp hhas)
    rw [hnone]
    rfl

namespace Engine

/-! ## What a new connection finds -/

/-- The documents that a new connection finds in a collection. -/
def found (uri collection : String) (g : Engine) : List Document :=
  match g.connect uri with
  | (.error _, _) => []
  | (.ok n, g) =>
    match g.connection? n with
    | some conn => g.store.documents conn.database collection
    | none => []

theorem found_eq {uri database : String} {n : Nat} {g g' : Engine}
    (hconnect : g.connect uri = (.ok n, g'))
    (hopen : g'.connection? n = some ⟨database, false⟩) (collection : String) :
    found uri collection g = g'.store.documents database collection := by
  unfold found
  rw [hconnect]
  dsimp only
  rw [hopen]

/-- Connecting reads nothing in the log. -/
theorem connect_withLog (uri : String) (g : Engine) (log : List Log.Record) :
    ∃ log', connect uri { g with log := log } =
      ((g.connect uri).1, { (g.connect uri).2 with log := log' }) := by
  unfold connect
  dsimp only
  rcases Address.parse uri with e | (name | text)
  · exact ⟨_, rfl⟩
  · exact ⟨_, rfl⟩
  · dsimp only
    rcases g.files.makeDirectories g.workingDirectory text with ⟨files, e | dir⟩
    · exact ⟨_, rfl⟩
    · dsimp only
      cases Keyed.get? g.store.databases (directoryKey dir) with
      | some db => exact ⟨_, rfl⟩
      | none =>
        dsimp only
        cases (CollectionFile.loadDirectory files dir).result with
        | error e => exact ⟨_, rfl⟩
        | ok collections => exact ⟨_, rfl⟩

/-- A state that differs from another one in nothing but its log and its connections. -/
structure Settled (g g' : Engine) : Prop where
  databases : g'.store.databases = g.store.databases
  files : g'.files = g.files
  workingDirectory : g'.workingDirectory = g.workingDirectory

theorem Settled.close {g g' : Engine} (h : Settled g g') (n : Nat) : Settled g (g'.close n).2 := by
  unfold Engine.close
  split
  · exact ⟨h.databases, h.files, h.workingDirectory⟩
  · exact h

/-- Once a place has been reached and its database is there, every new connection finds what the
database has. -/
theorem found_of_reaches {uri : String} {place : Place} {g : Engine} (h : g.Reaches uri place)
    (hthere : g.store.Has place.key) (collection : String) :
    found uri collection g = g.store.documents place.key collection := by
  obtain ⟨n, g', hconnect, hopen, hdbs⟩ := connect_of_reaches h hthere
  rw [found_eq hconnect hopen, documents_congr hdbs]

/-- A query finds those of the documents that satisfy its clauses. -/
theorem run_find {uri name database : String} {n : Nat} {g g₁ : Engine}
    (hconnect : g.connect uri = (.ok n, g₁))
    (hopen : g₁.connection? n = some ⟨database, false⟩) (hn : validCollectionName name = true)
    {steps : List Step} (hs : Steps.Composed steps) :
    (Run.run driver (.server uri :: .collection name :: steps) .find g).1 =
      .ok (.documents ((found uri name g).filter (Steps.selects steps))) := by
  let whole := .server uri :: .collection name :: steps
  obtain ⟨log, hlog⟩ := connect_withLog uri g
    (Run.trace driver (Run.placeText 1 (whole.length + 1) .server) g).log
  rw [hconnect] at hlog
  obtain ⟨c, g₂, htr, hconn, hcoll, hnoted, hrun⟩ := runSteps_behind hlog hopen hn hs
  obtain ⟨filter, f, hfilter, hparse, heval⟩ := Clause.parse_filterOf hs.clauses_ne_nil hs.plain
  have hsel : (fun d => f.eval d) = Steps.selects steps := funext heval
  have hready : c.missing Operation.find.kind = [] :=
    Steps.missing_eq_nil (htr.has_asked hs (by rw [hconn]; rfl) (by rw [hcoll]; rfl))
  have hrequest : Run.request c .find = .ok (.find filter) := by
    have hfc : c.filter = some filter := by rw [htr.filter, hfilter]
    simp [Run.request, Run.required, hfc]
    rfl
  obtain ⟨g₃, hnoted₃, hdrive⟩ := Run.drive_eq_perform hrun hready
  obtain ⟨g₄, hnoted₄, hperform⟩ := Run.perform_eq_request (d := driver) hcoll hrequest g₃
  -- only notes have been made since the connection was opened
  obtain ⟨hopen₄, hdocs₄⟩ := ((hnoted.trans hnoted₃).trans hnoted₄).keeps
    (P := fun g' => g'.connection? n = some ⟨database, false⟩ ∧
      g'.store.documents database name = g₁.store.documents database name)
    (fun _ _ h => h) ⟨hopen, rfl⟩
  have hanswer := (perform_find (h := ⟨n, name⟩)
    (prepare_eq_ok.mpr ⟨databaseOf_eq_ok.mpr hopen₄, hparse⟩)).1
  refine (run_eq_drive whole .find g).1.trans ?_
  rw [hdrive, hperform, found_eq hconnect hopen, ← hdocs₄, ← hsel]
  exact congrArg (Except.mapError RunError.store) hanswer

/-! ## What a run leaves -/

/-- What the first two steps of a query have done when they have passed. -/
theorem connected_of_passed {uri name : String} {total : Nat} {g g₂ : Engine}
    {c : Session Nat Handle}
    (h : Run.Passed driver total g [.server uri, .collection name] c g₂) :
    ∃ n g₁, g.connect uri = (.ok n, g₁) ∧ validCollectionName name = true ∧ c = taken n name ∧
      Settled g₁ g₂ ∧ g₂.store.connections = g₁.store.connections := by
  have hboth : Run.Passed driver total g ([.server uri] ++ [.collection name]) c g₂ := h
  obtain ⟨c₁, g₁, hfirst, -, hcollection⟩ := hboth.last
  have hserver : Run.Passed driver total g ([] ++ [.server uri]) c₁ g₁ := hfirst
  obtain ⟨c₀, g₀, hstart, -, hconnect⟩ := hserver.last
  obtain ⟨rfl, hg₀⟩ := hstart.unique .start
  rw [hg₀] at hconnect
  unfold Run.apply at hconnect
  dsimp only [Step.kind] at hconnect
  rw [Run.applyServer_eq] at hconnect
  obtain ⟨log, hlog⟩ := connect_withLog uri g (Run.announce driver total [] .server g).log
  have hcall : driver.connect uri
      (Run.vacate driver .empty (Run.announce driver total [] .server g)).2 = _ := hlog
  rw [hcall] at hconnect
  rcases hopened : g.connect uri with ⟨e | n, g'⟩
  · rw [hopened] at hconnect
    cases hconnect
  · rw [hopened] at hconnect
    cases hconnect
    refine ⟨n, g', rfl, ?_⟩
    unfold Run.apply at hcollection
    dsimp only [Run.required, Step.kind] at hcollection
    rcases collection_cases n name (Run.announce driver total [.server uri] .collection
      { g' with log := log }) with ⟨-, hend⟩ | ⟨-, -, hend⟩ | ⟨-, hvalid, hend⟩
    all_goals rw [show driver.collection n name _ = _ from hend] at hcollection
    · cases hcollection
    · cases hcollection
    · cases hcollection
      exact ⟨hvalid, rfl, ⟨rfl, rfl, rfl⟩, rfl⟩

/-- Steps that have passed behind them have gathered what they say, and taken notes. -/
theorem tracked_of_passed {uri name : String} {total : Nat} {g : Engine} {steps : List Step}
    (hput : ∀ step ∈ steps, step.staysPut = true) {g₂ : Engine} {c : Session Nat Handle}
    (h : Run.Passed driver total g (.server uri :: .collection name :: steps) c g₂) :
    ∃ n g₁, g.connect uri = (.ok n, g₁) ∧ validCollectionName name = true ∧
      Steps.Tracks steps c ∧ c.collection = some ⟨n, name⟩ ∧ Settled g₁ g₂ ∧
      g₂.store.connections = g₁.store.connections := by
  induction steps using List.reverseRecOn generalizing c g₂ with
  | nil =>
    obtain ⟨n, g₁, hconnect, hvalid, rfl, hsettled, hconns⟩ := connected_of_passed h
    exact ⟨n, g₁, hconnect, hvalid, ⟨rfl, rfl, rfl, rfl, rfl⟩, rfl, hsettled, hconns⟩
  | append_singleton before step ih =>
    have hall : Run.Passed driver total g
        ((.server uri :: .collection name :: before) ++ [step]) c g₂ := h
    obtain ⟨c₁, g₃, hbefore, hready, hrun⟩ := hall.last
    obtain ⟨n, g₁, hconnect, hvalid, htracks, hcoll, hsettled, hconns⟩ :=
      ih (fun other hother => hput other (List.mem_append_left _ hother)) hbefore
    -- it asks for a field only if one has been selected
    have hask : step.asksField = true → (Steps.latestField before.reverse).isSome = true := by
      intro hasks
      rw [← htracks.targetField]
      have hneeds : .targetField ∈ step.kind.requires := by
        cases step with
        | compare comparison x => cases comparison <;> simp [Step.kind, StepKind.requires]
        | negate | among => simp [Step.kind, StepKind.requires]
        | server | collection | select | assign => cases hasks
      exact Run.has_of_missing_eq_nil hready hneeds
    obtain ⟨c', happly, htracks', -, hcoll'⟩ := Steps.apply_tracks driver htracks
      (hput step (List.mem_append_right _ (List.mem_singleton_self step))) hask
      (Run.announce driver total (.server uri :: .collection name :: before) step.kind g₃)
    rw [happly] at hrun
    cases hrun
    exact ⟨n, g₁, hconnect, hvalid, htracks', hcoll'.trans hcoll,
      ⟨hsettled.databases, hsettled.files, hsettled.workingDirectory⟩, hconns⟩

/-- Saving the documents of a collection loses no directory and no link. -/
theorem keeps_save {g g' : Engine} {database collection : String}
    {docs : List Document} (h : g.save database collection docs = ⟨g'.files, .ok ()⟩) :
    g.files.Keeps g'.files := by
  unfold save at h
  split at h
  · rw [← (CollectionFile.Written.mk.inj h).1]
    exact .refl _
  · exact (CollectionFile.wrote_of_write h).keeps

/-- A run that has gone through has connected, and has made its request through the new connection;
everything else that it did was to take notes and to close connections. -/
theorem performed_of_run {uri name : String} {steps : List Step}
    (hput : ∀ step ∈ steps, step.staysPut = true) {op : Operation} {report : Report} {g : Engine}
    (h : (Run.run driver (.server uri :: .collection name :: steps) op g).1 = .ok report) :
    ∃ n g₁ r g₃ g₄, ∃ c : Session Nat Handle, g.connect uri = (.ok n, g₁) ∧
      validCollectionName name = true ∧ Steps.Tracks steps c ∧ Run.request c op = .ok r ∧
      Settled g₁ g₃ ∧ g₃.store.connections = g₁.store.connections ∧
      Performed g₃ ⟨n, name⟩ r (.ok report) g₄ ∧
      Settled g₄ (Run.run driver (.server uri :: .collection name :: steps) op g).2 := by
  let whole : List Step := .server uri :: .collection name :: steps
  obtain ⟨c, g₄, hdrive, hended⟩ := Run.run_ended driver whole op g
  -- what follows the outcome leaves databases and files alone
  have hafter : Settled g₄ (Run.run driver whole op g).2 := by
    refine (Run.run_keeps (P := Settled g₄) (fun _ _ h => ⟨h.databases, h.files, h.workingDirectory⟩)
      (fun n _ h => h.close n) whole op g ?_).2
    rw [hdrive]
    exact ⟨rfl, rfl, rfl⟩
  rw [h] at hended
  generalize hout : (Except.ok report : Except RunError Report) = outcome at hended
  cases hended with
  | halted => cases hout
  | unready => cases hout
  | @answered c coll r answer g₂ g₄ hsteps hready hcoll hrequest hcall =>
    obtain ⟨n, g₁, hconnect, hvalid, htracks, hcoll', hsettled, hconns⟩ :=
      tracked_of_passed hput hsteps
    cases hcoll.symm.trans hcoll'
    have hanswer : answer = .ok report := by
      rcases answer with e | report'
      · cases hout
      · cases hout
        rfl
    generalize hg₃ : Run.debug driver _ _ _ = g₃ at hcall
    have hperformed := g₃.performed ⟨n, name⟩ r
    rw [show g₃.perform ⟨n, name⟩ r = _ from hcall, hanswer] at hperformed
    refine ⟨n, g₁, r, g₃, g₄, c, hconnect, hvalid, htracks, hrequest, ?_, ?_, hperformed, hafter⟩
    · rw [← hg₃]
      exact ⟨hsettled.databases, hsettled.files, hsettled.workingDirectory⟩
    · rw [← hg₃]
      exact hconns

/-- An update that can be asked for asks for what the session holds. -/
theorem update_of_request {c : Session Nat Handle} {r : Request}
    (h : Run.request c .update = .ok r) :
    ∃ filter spec multi, c.filter = some filter ∧ c.updateSpec = some spec ∧
      c.multi = some multi ∧ r = .update filter spec multi := by
  unfold Run.request Run.required at h
  cases hfilter : c.filter with
  | none => rw [hfilter] at h; cases h
  | some filter =>
    cases hspec : c.updateSpec with
    | none => rw [hfilter, hspec] at h; cases h
    | some spec =>
      cases hmulti : c.multi with
      | none => rw [hfilter, hspec, hmulti] at h; cases h
      | some multi =>
        rw [hfilter, hspec, hmulti] at h
        cases h
        exact ⟨filter, spec, multi, rfl, rfl, rfl, rfl⟩

/-- Only a search makes the request of a search. -/
theorem find_of_request {c : Session Nat Handle} {op : Operation} {filter : Document}
    (h : Run.request c op = .ok (.find filter)) : op = .find := by
  cases op with
  | find => rfl
  | remove =>
    unfold Run.request Run.required at h
    cases hfilter : c.filter with
    | none => rw [hfilter] at h; cases h
    | some filter => rw [hfilter] at h; cases h
  | update =>
    obtain ⟨_, _, _, -, -, -, hr⟩ := update_of_request h
    cases hr
  | insert document => cases h

/-- A change of a collection that a run has made: the request, and what new connections find. -/
structure Changes (uri name : String) (r : Request) (report : Report) (g g' : Engine) : Prop where
  valid : validCollectionName name = true
  outcome : ∃ s, r.outcome s (found uri name g) = .ok (report, found uri name g')
  opens : ∃ n g₁ database, g'.connect uri = (.ok n, g₁) ∧
    g₁.connection? n = some ⟨database, false⟩

theorem changes_of_run {uri name : String} {steps : List Step}
    (hput : ∀ step ∈ steps, step.staysPut = true) {op : Operation} (hop : op ≠ .find)
    {report : Report} {g : Engine}
    (h : (Run.run driver (.server uri :: .collection name :: steps) op g).1 = .ok report) :
    ∃ r, ∃ c : Session Nat Handle, Steps.Tracks steps c ∧ Run.request c op = .ok r ∧
      Changes uri name r report g
        (Run.run driver (.server uri :: .collection name :: steps) op g).2 := by
  obtain ⟨n, g₁, r, g₃, g₄, c, hconnect, hvalid, htracks, hrequest, hsettled, hconns, hperformed,
    hafter⟩ := performed_of_run hput h
  refine ⟨r, c, htracks, hrequest, ?_⟩
  generalize (Run.run driver (.server uri :: .collection name :: steps) op g).2 = g' at hafter ⊢
  obtain ⟨place, harrives⟩ := arrives_of_connect hconnect
  cases hperformed with
  | found _ hr => exact absurd (find_of_request (hr ▸ hrequest)) hop
  | @saved database _ docs _ hopen _ hout hsave hreplaced =>
    have hplace : database = place.key := by
      have hconn := databaseOf_eq_ok.mp hopen
      unfold connection? at hconn
      rw [hconns] at hconn
      cases hconn.symm.trans harrives.connection?_eq
      rfl
    subst hplace
    have hfound : found uri name g = g₃.store.documents place.key name := by
      rw [found_eq hconnect harrives.connection?_eq, documents_congr hsettled.databases]
    -- the place is still reached, and its database is there
    have hreaches : g'.Reaches uri place := by
      refine harrives.reaches.kept ?_ ?_
      · rw [hafter.workingDirectory, hreplaced.workingDirectory, hsettled.workingDirectory]
      · rw [hafter.files, ← hsettled.files]
        exact keeps_save hsave
    have hthere : g'.store.Has place.key := by
      rw [Store.has_congr hafter.databases, Store.has_congr hreplaced.databases]
      exact (Store.has_setDocuments_iff ..).mpr (.inr rfl)
    obtain ⟨n', g'', hagain, hopen', -⟩ := connect_of_reaches hreaches hthere
    refine ⟨hvalid, ⟨g₃.store, ?_⟩, n', g'', _, hagain, hopen'⟩
    rw [found_of_reaches hreaches hthere, documents_congr hafter.databases, hreplaced.leaves.here,
      hfound]
    exact hout

/-! ## What an insertion leaves -/

/-- What an insertion that goes through does to the collection: it takes one more document at its
end, under an identifier that was not in use. -/
structure Inserts (uri name : String) (d : Document) (i : Value) (g g' : Engine) : Prop where
  valid : validCollectionName name = true
  unused : Store.idInUse (found uri name g) i = false
  /-- The document came with the identifier, or it was given out for it. -/
  id : Keyed.get? d "_id" = some i ∨ Keyed.get? d "_id" = none ∧ ∃ id, i = .objectId id
  here : found uri name g' = found uri name g ++ [Document.under d i]
  opens : ∃ n g₁ database, g'.connect uri = (.ok n, g₁) ∧
    g₁.connection? n = some ⟨database, false⟩

theorem inserts_of_run {uri name : String} {d : Document} {i : Value} {g : Engine}
    (h : (Run.run driver [.server uri, .collection name] (.insert d) g).1 = .ok (.inserted i)) :
    Inserts uri name d i g (Run.run driver [.server uri, .collection name] (.insert d) g).2 := by
  obtain ⟨r, c, -, hrequest, hchanges⟩ :=
    changes_of_run (List.forall_mem_nil _) (fun hop => Operation.noConfusion hop) h
  cases hrequest
  obtain ⟨s, hout⟩ := hchanges.outcome
  dsimp only [Request.outcome] at hout
  split at hout
  · cases hout
  · next hunused =>
    rw [Store.withId_eq_under] at hout
    obtain ⟨hreport, hfound⟩ := Prod.mk.inj (Except.ok.inj hout)
    obtain rfl : s.idFor d = i := Report.inserted.inj hreport
    refine ⟨hchanges.valid, by simpa using hunused, ?_, hfound.symm, hchanges.opens⟩
    unfold Store.idFor
    cases Keyed.get? d "_id" with
    | some v => exact .inl rfl
    | none => exact .inr ⟨rfl, _, rfl⟩

/-! ## Finding it again -/

/-- A query for the documents with a value at a path. -/
def holding (path : String) (v : Value) : List Step := [.select path, .compare .equal v]

theorem clauses_holding (path : String) (v : Value) :
    Steps.clauses (holding path v) = [.compare path .equal v] := rfl

theorem holding_composed {path : String} {v : Value} (hpath : Filter.isOperatorKey path = false)
    (hv : v.readsAsOperators = false) : Steps.Composed (holding path v) where
  staysPut := by simp [holding, Step.staysPut]
  placed before step after hsteps hasks := by
    cases before with
    | nil =>
      cases hsteps
      cases hasks
    | cons first before =>
      obtain ⟨rfl, -⟩ := List.cons.inj hsteps
      exact ⟨path, List.mem_cons_self⟩
  asks := ⟨.compare .equal v, by simp [holding], rfl⟩
  fields field hfield := by
    obtain rfl : field = path := by simpa [holding] using hfield
    exact hpath
  values c hc x hx := by
    rw [clauses_holding, List.mem_singleton] at hc
    subst hc
    rw [show x = v from List.mem_singleton.mp hx]
    exact hv

/-- A query for the documents under an identifier. -/
def byId (i : Value) : List Step := [.select "_id", .compare .equal i]

theorem clauses_byId (i : Value) : Steps.clauses (byId i) = [.compare "_id" .equal i] := rfl

theorem byId_composed {i : Value} (h : i.readsAsOperators = false) : Steps.Composed (byId i) :=
  holding_composed (by decide) h

/-- The query asks of a document what an insertion asks of it. -/
theorem selects_byId (i : Value) (d : Document) :
    Steps.selects (byId i) d = Store.idInUse [d] i := by
  unfold Steps.selects Store.idInUse
  rw [clauses_byId, List.all_cons, List.all_nil, Bool.and_true, List.any_cons, List.any_nil,
    Bool.or_false, Clause.holds, FieldPath.find?_id]
  cases Keyed.get? d "_id" with
  | none => rfl
  | some v => rfl

theorem filter_byId_eq_nil {docs : List Document} {i : Value}
    (h : Store.idInUse docs i = false) : docs.filter (Steps.selects (byId i)) = [] := by
  rw [List.filter_eq_nil_iff]
  intro d hd
  rw [selects_byId]
  unfold Store.idInUse at h ⊢
  rw [List.any_eq_false] at h
  simpa using h d hd

theorem selects_byId_under {d : Document} {i : Value} (hd : (Value.document d).WellFormed)
    (hid : Keyed.get? d "_id" = some i ∨ Keyed.get? d "_id" = none ∧ ∃ id, i = .objectId id)
    (hdouble : i.hasDouble = false) : Steps.selects (byId i) (Document.under d i) = true := by
  have hwell : i.WellFormed := by
    rcases hid with hid | ⟨-, id, rfl⟩
    · rw [Value.WellFormed] at hd
      exact Value.wellFormed_of_get? hd.2 hid
    · simp [Value.WellFormed]
  have hget : Keyed.get? (Document.under d i) "_id" = some i := by
    unfold Document.under Keyed.has
    rcases hid with hid | ⟨hnone, -⟩
    · rw [hid]
      exact hid
    · rw [hnone]
      rfl
  rw [selects_byId]
  unfold Store.idInUse
  rw [List.any_cons, List.any_nil, Bool.or_false, hget]
  exact Value.alike_self hwell hdouble

/-- A document that has been inserted is found again by its identifier, with no other one, and the
collection is the one before with this document at its end. So it is in memory and in a directory,
whatever the collection held before, for every identifier that is equal to itself and is not taken
for operators when the query is parsed. -/
theorem insert_then_find {uri name : String} {d : Document} {i : Value} {g : Engine}
    (hinsert : (Run.run driver [.server uri, .collection name] (.insert d) g).1 =
      .ok (.inserted i))
    (hd : (Value.document d).WellFormed) (hdouble : i.hasDouble = false)
    (hoperators : i.readsAsOperators = false) :
    let g' := (Run.run driver [.server uri, .collection name] (.insert d) g).2
    found uri name g' = found uri name g ++ [Document.under d i] ∧
      (Run.run driver (.server uri :: .collection name :: byId i) .find g').1 =
        .ok (.documents [Document.under d i]) := by
  intro g'
  have hinserts := inserts_of_run hinsert
  obtain ⟨n, g₁, database, hconnect, hopen⟩ := hinserts.opens
  refine ⟨hinserts.here, ?_⟩
  rw [run_find hconnect hopen hinserts.valid (byId_composed hoperators), hinserts.here,
    List.filter_append, filter_byId_eq_nil hinserts.unused, List.nil_append,
    List.filter_cons_of_pos (selects_byId_under hd hinserts.id hdouble), List.filter_nil]

/-- A store with three items of which two have an identifier that is the same number, and the third
was given one. -/
def crowded : Engine :=
  ⟨.empty, [], (Store.empty (.numbered 0)).seed "shop" "items"
    [[("_id", .int32 1)], [("_id", .int64 1)], [("name", .string "desk")]], []⟩

/-- One more item. -/
def lamp : Document := [("_id", .int64 2), ("name", .string "lamp")]

theorem insert_then_find_lamp :
    (Run.run driver [.server "memory://shop", .collection "items"] (.insert lamp) crowded).1 =
        .ok (.inserted (.int64 2)) ∧
      (Run.run driver (.server "memory://shop" :: .collection "items" :: byId (.int64 2)) .find
        (Run.run driver [.server "memory://shop", .collection "items"] (.insert lamp) crowded).2).1 =
        .ok (.documents [lamp]) := by
  have hinsert : (Run.run driver [.server "memory://shop", .collection "items"] (.insert lamp)
      crowded).1 = .ok (.inserted (.int64 2)) := by rfl
  have hwell : (Value.document lamp).WellFormed := by
    simp [lamp, Value.WellFormed, Value.WellFormedFields, Keyed.keys]
  exact ⟨hinsert, (insert_then_find hinsert hwell (by rfl) (by rfl)).2⟩

end Engine
end DocQuery
