import DocQuery.Proofs.Reopening
import DocQuery.Proofs.Widening

/-
  Queries before a store is closed and after another one has opened its directory. While a
  collection is filled, its file holds its documents with negative integers widened, so another
  store asks the same filter of those; `reopened_answers` says that the answers then stand at the
  same places, unless the filter tells a negative integer from a wide one inside of a value.
-/

namespace DocQuery

/-! ## One collection of a directory -/

namespace FileTree

/-- What is under a name among the entries of a directory is what is at its path. -/
theorem get?_children (t : FileTree) (dir : Path) (name : FileName) :
    Keyed.get? (t.children dir) name = t.get? (dir ++ [name]) := by
  rw [get?_append_single]
  obtain ⟨entries⟩ := t
  unfold children
  dsimp only
  induction entries with
  | nil => rfl
  | cons e entries ih =>
    obtain ⟨p, entry⟩ := e
    rw [List.filterMap_cons, Keyed.get?]
    dsimp only
    cases hlast : p.getLast? with
    | none =>
      have hne : p ≠ dir ++ [name] := by
        rintro rfl
        rw [List.getLast?_append_cons] at hlast
        cases hlast
      rw [if_neg hne]
      exact ih
    | some last =>
      dsimp only
      by_cases hp : p = dir ++ [last]
      · have hiff : dir ++ [last] = dir ++ [name] ↔ last = name := by simp
        rw [if_pos hp, hp]
        dsimp only
        rw [Keyed.get?, ih]
        simp only [hiff]
      · have hne : p ≠ dir ++ [name] := by
          rintro rfl
          rw [List.getLast?_concat] at hlast
          exact hp (by rw [Option.some.inj hlast])
        rw [if_neg hp, if_neg hne]
        exact ih

end FileTree

namespace CollectionFile

/-- The documents of an entry that may be there; with no entry there are none. -/
def readIfThere (file : String) : Option Entry → Except IoError (List Document)
  | none => .ok []
  | some entry => readEntry file entry

/-- The documents in the file of a collection. -/
def documentsIn (files : FileTree) (dir : Path) (collection : String) :
    Except IoError (List Document) :=
  readIfThere (Path.text (dir ++ [fileName collection])) (files.get? (dir ++ [fileName collection]))

theorem get?_loadEntries {dir : Path} {entries : List (FileName × Entry)}
    {collections : Keyed String (List Document)}
    (h : (loadEntries dir entries).result = .ok collections) {collection : String}
    (hname : collection ≠ "") :
    readIfThere (Path.text (dir ++ [fileName collection]))
        (Keyed.get? entries (fileName collection)) =
      .ok ((Keyed.get? collections collection).getD []) := by
  induction entries generalizing collections with
  | nil =>
    cases h
    rfl
  | cons e entries ih =>
    obtain ⟨name, entry⟩ := e
    rw [result_loadEntries_cons] at h
    cases hc : collectionOf? name with
    | none =>
      rw [hc] at h
      have hne : name ≠ fileName collection := by
        rintro rfl
        rw [collectionOf?_fileName hname] at hc
        cases hc
      rw [Keyed.get?_cons_other hne]
      exact ih h
    | some other =>
      obtain ⟨rfl, -⟩ := collectionOf?_eq_some.mp hc
      rw [hc] at h
      dsimp only at h
      cases hread : readEntry (Path.text (dir ++ [fileName other])) entry with
      | error e =>
        rw [hread] at h
        cases h
      | ok docs =>
        rw [hread] at h
        cases hrest : (loadEntries dir entries).result with
        | error e =>
          rw [hrest] at h
          cases h
        | ok rest =>
          rw [hrest] at h
          cases h
          by_cases hsame : other = collection
          · subst hsame
            rw [Keyed.get?_cons_self, Keyed.get?_cons_self]
            exact hread
          · have hne : fileName other ≠ fileName collection := fun he => hsame (fileName_inj.mp he)
            rw [Keyed.get?_cons_other hne, Keyed.get?_cons_other hsame]
            exact ih hrest

/-- A directory that is loaded has in each collection the documents of its file. -/
theorem documentsIn_of_loadDirectory {files : FileTree} {dir : Path}
    {collections : Keyed String (List Document)}
    (h : (loadDirectory files dir).result = .ok collections) {collection : String}
    (hname : collection ≠ "") :
    documentsIn files dir collection = .ok ((Keyed.get? collections collection).getD []) := by
  unfold loadDirectory at h
  split at h
  · cases h
  · unfold documentsIn
    rw [← FileTree.get?_children]
    exact get?_loadEntries h hname

end CollectionFile

namespace Store

theorem plain_withId (s : Store) {d : Document} (h : (Value.document d).Plain) :
    (Value.document (s.withId d).2).Plain := by
  unfold withId
  split
  · exact h
  · next hid =>
    have hnew : "_id" ∉ Keyed.keys d := by
      rw [Keyed.mem_keys_iff]
      exact hid
    exact ⟨List.nodup_cons.mpr ⟨hnew, h.1⟩, by decide, trivial, h.2⟩

theorem depth_withId (s : Store) {d : Document}
    (h : (Value.toJson (.document d)).depth ≤ Json.maxDepth) :
    (Value.toJson (.document (s.withId d).2)).depth ≤ Json.maxDepth := by
  unfold withId
  split
  · exact h
  · have hmax : 2 ≤ Json.maxDepth := by decide
    simp only [Value.toJson, Value.fieldsToJson, Json.depth, Json.depthMembers] at h ⊢
    omega

end Store

namespace Engine

/-! ## Asking another store -/

/-- What a store that has not been used answers: it connects, takes the collection and finds. -/
def askFresh (ids : Nat → ObjectId) (uri collection : String) (filter : Document) (g : Engine) :
    Except StoreError (List Document) :=
  match (fresh g.files g.workingDirectory ids).connect uri with
  | (.error e, _) => .error e
  | (.ok conn, g) =>
    match g.collection conn collection with
    | (.error e, _) => .error e
    | (.ok h, g) => (g.find h filter).1

theorem find_eq_ok {g : Engine} {h : Handle} {database : String}
    (hopen : g.databaseOf h = .ok database) {filter : Document} {f : Filter}
    (hparse : Filter.parse filter = .ok f) :
    (g.find h filter).1 = .ok ((g.store.documents database h.collection).filter f.eval) := by
  unfold find
  rw [prepare_eq_ok.mpr ⟨hopen, hparse⟩]

/-- Another store that connects to a directory has its collections. -/
theorem connect_fresh {g : Engine} {uri : String} {dir : Path} (hleads : g.LeadsTo uri dir)
    {collections : Keyed String (List Document)}
    (hload : (CollectionFile.loadDirectory g.files dir).result = .ok collections)
    (ids : Nat → ObjectId) :
    ∃ g', (fresh g.files g.workingDirectory ids).connect uri = (.ok 0, g') ∧
      g'.connection? 0 = some ⟨directoryKey dir, false⟩ ∧
      g'.store.databases = [(directoryKey dir, ⟨some dir, collections⟩)] := by
  obtain ⟨text, haddress, hmade⟩ := hleads
  unfold connect fresh
  rw [haddress]
  dsimp only
  rw [hmade]
  dsimp only [Store.empty]
  rw [Keyed.get?_nil]
  dsimp only
  rw [hload]
  exact ⟨_, rfl, rfl, rfl⟩

/-- Another store finds what is in the file of the collection. -/
theorem askFresh_eq {g : Engine} {uri collection : String} {dir : Path} (hleads : g.LeadsTo uri dir)
    (hloads : CollectionFile.Loads g.files dir) (hname : validCollectionName collection = true)
    {docs : List Document} (hfile : CollectionFile.documentsIn g.files dir collection = .ok docs)
    {filter : Document} {f : Filter} (hparse : Filter.parse filter = .ok f) (ids : Nat → ObjectId) :
    askFresh ids uri collection filter g = .ok (docs.filter f.eval) := by
  obtain ⟨collections, hload⟩ := hloads
  have hdocs := CollectionFile.documentsIn_of_loadDirectory hload
    (CollectionFile.ne_empty_of_valid hname)
  cases hfile.symm.trans hdocs
  obtain ⟨g', hconnect, hopen, hdatabases⟩ := connect_fresh hleads hload ids
  unfold askFresh
  rw [hconnect]
  dsimp only
  rw [collection_eq_ok hopen hname]
  dsimp only
  rw [find_eq_ok (databaseOf_eq_ok.mpr hopen) hparse]
  unfold Store.documents
  rw [hdatabases, Keyed.get?_cons_self]

/-- The empty filter finds all of it. -/
theorem askFresh_nil {g : Engine} {uri collection : String} {dir : Path}
    (hleads : g.LeadsTo uri dir) (hloads : CollectionFile.Loads g.files dir)
    (hname : validCollectionName collection = true) {docs : List Document}
    (hfile : CollectionFile.documentsIn g.files dir collection = .ok docs) (ids : Nat → ObjectId) :
    askFresh ids uri collection [] g = .ok docs := by
  have hparse : Filter.parse [] = .ok .all := rfl
  rw [askFresh_eq hleads hloads hname hfile hparse ids]
  exact congrArg Except.ok (List.filter_eq_self.mpr fun _ _ => rfl)

/-! ## Filling a collection -/

/-- Inserts documents one after the other, each through a connection; none may be refused. -/
def insertAll (collection : String) : List (Nat × Document) → Engine → Option Engine
  | [], g => some g
  | (conn, d) :: rest, g =>
    match g.insert ⟨conn, collection⟩ d with
    | (.error _, _) => none
    | (.ok _, g) => insertAll collection rest g

/-- A collection of a database that is kept in a directory, with its file: another store can open
the directory, and its documents come back from the file with negative integers widened. -/
structure Mirrored (uri database collection : String) (dir : Path) (g : Engine) : Prop where
  leads : g.LeadsTo uri dir
  loads : CollectionFile.Loads g.files dir
  directory : g.store.directoryOf database = some dir
  lines : ∀ d ∈ g.store.documents database collection,
    CollectionFile.rereadDocument d = some (Value.widenedFields d)
  file : CollectionFile.documentsIn g.files dir collection =
    .ok ((g.store.documents database collection).map Value.widenedFields)

/-- An insertion that goes through has been written. -/
theorem insert_eq_ok {g g' : Engine} {h : Handle} {database : String} {d : Document} {id : Value}
    (hopen : g.databaseOf h = .ok database) (hok : g.insert h d = (.ok id, g')) :
    let docs := g.store.documents database h.collection ++ [(g.store.withId d).2]
    g.save database h.collection docs = ⟨g'.files, .ok ()⟩ ∧
      Replaced g g' database h.collection docs := by
  have hend := g.performed h (.insert d)
  have hperform : g.perform h (.insert d) = (.ok (.inserted id), g') := by
    simp only [perform, hok]
    rfl
  rw [hperform] at hend
  cases hend with
  | found hopen' hr hout hsame hfiles => cases hr
  | saved hopen' hr hout hsave hreplaced =>
    cases hopen.symm.trans hopen'
    dsimp only [Request.outcome] at hout
    split at hout
    · cases hout
    · cases hout
      exact ⟨hsave, hreplaced⟩

/-- An insertion of a plain document keeps a collection and its file together. -/
theorem Mirrored.insert {uri database collection : String} {dir : Path} {g g' : Engine}
    (h : Mirrored uri database collection dir g) (hname : validCollectionName collection = true)
    {conn : Nat} {d : Document} {id : Value} (hopen : g.databaseOf ⟨conn, collection⟩ = .ok database)
    (hplain : (Value.document d).Plain)
    (hdepth : (Value.toJson (.document d)).depth ≤ Json.maxDepth)
    (hok : g.insert ⟨conn, collection⟩ d = (.ok id, g')) :
    Mirrored uri database collection dir g' := by
  obtain ⟨hsave, hreplaced⟩ := insert_eq_ok hopen hok
  unfold save at hsave
  rw [h.directory] at hsave
  have hwrote := CollectionFile.wrote_of_write hsave
  have hdocs := hreplaced.leaves.here
  have hlines : ∀ d' ∈ g'.store.documents database collection,
      CollectionFile.rereadDocument d' = some (Value.widenedFields d') := by
    rw [hdocs]
    intro d' hd'
    rcases List.mem_append.mp hd' with hd' | hd'
    · exact h.lines d' hd'
    · rw [List.mem_singleton.mp hd']
      exact CollectionFile.rereadDocument_of_plain (g.store.plain_withId hplain)
        (g.store.depth_withId hdepth)
  rw [← hdocs] at hwrote
  refine ⟨h.leads.of_wrote hwrote hreplaced.workingDirectory, ?_, ?_, hlines, ?_⟩
  · rw [hwrote.loads_iff (CollectionFile.ne_empty_of_valid hname) h.loads]
    intro d' hd'
    rw [← CollectionFile.rereadDocument_isSome_iff, hlines d' hd']
    rfl
  · rw [Store.directoryOf_congr hreplaced.databases, Store.directoryOf_setDocuments]
    exact h.directory
  · unfold CollectionFile.documentsIn
    rw [hwrote.get?_self]
    exact CollectionFile.documentsOf_textOf_map hlines

theorem databaseOf_congr {g g' : Engine} (h : g'.store.connections = g.store.connections)
    (handle : Handle) : g'.databaseOf handle = g.databaseOf handle := by
  unfold databaseOf connection?
  rw [h]

/-- So does a whole run of them. -/
theorem Mirrored.insertAll {uri database collection : String} {dir : Path}
    (hname : validCollectionName collection = true) {inserts : List (Nat × Document)}
    (hplain : ∀ e ∈ inserts, (Value.document e.2).Plain)
    (hdepth : ∀ e ∈ inserts, (Value.toJson (.document e.2)).depth ≤ Json.maxDepth) {g g' : Engine}
    (hopen : ∀ e ∈ inserts, g.databaseOf ⟨e.1, collection⟩ = .ok database)
    (hfilled : Engine.insertAll collection inserts g = some g')
    (h : Mirrored uri database collection dir g) :
    Mirrored uri database collection dir g' ∧ g'.store.connections = g.store.connections := by
  induction inserts generalizing g with
  | nil =>
    cases hfilled
    exact ⟨h, rfl⟩
  | cons e rest ih =>
    obtain ⟨conn, d⟩ := e
    obtain ⟨hplain, hplains⟩ := List.forall_mem_cons.mp hplain
    obtain ⟨hdepth, hdepths⟩ := List.forall_mem_cons.mp hdepth
    obtain ⟨hopen, hopens⟩ := List.forall_mem_cons.mp hopen
    rw [Engine.insertAll] at hfilled
    split at hfilled
    · cases hfilled
    · next id g₁ hok =>
      have hconnections := (insert_eq_ok hopen hok).2.connections
      have hopens₁ : ∀ e ∈ rest, g₁.databaseOf ⟨e.1, collection⟩ = .ok database := by
        intro e he
        rw [databaseOf_congr hconnections]
        exact hopens e he
      obtain ⟨hmirrored, hsame⟩ :=
        ih hplains hdepths hopens₁ hfilled (h.insert hname hopen hplain hdepth hok)
      exact ⟨hmirrored, hsame.trans hconnections⟩

/-! ## Answers and their places -/

/-- The places of a list at which a test holds. -/
def places {α : Type} (p : α → Bool) (l : List α) : List Nat :=
  (List.range l.length).filter fun i => l[i]?.any p

/-- What stands at places of a list. -/
def standingAt {α : Type} (l : List α) (positions : List Nat) : List α :=
  positions.filterMap fun i => l[i]?

theorem standingAt_range {α : Type} (l : List α) : standingAt l (List.range l.length) = l := by
  unfold standingAt
  induction l with
  | nil => rfl
  | cons x l ih =>
    rw [List.length_cons, List.range_succ_eq_map, List.filterMap_cons, List.filterMap_map]
    exact congrArg (x :: ·) ih

theorem standingAt_places {α : Type} (p : α → Bool) (l : List α) :
    standingAt l (places p l) = l.filter p := by
  have hall := congrArg (List.filter p) (standingAt_range l)
  unfold standingAt at hall ⊢
  rw [List.filter_filterMap] at hall
  rw [← hall, places, List.filterMap_filter]
  refine List.filterMap_congr ?_
  intro i hi
  cases hx : l[i]? with
  | none => simp
  | some x => simp [Option.filter]

theorem places_map {α β : Type} {p : α → Bool} {q : β → Bool} {f : α → β} {l : List α}
    (h : ∀ x ∈ l, q (f x) = p x) : places q (l.map f) = places p l := by
  unfold places
  rw [List.length_map]
  refine List.filter_congr ?_
  intro i hi
  rw [List.getElem?_map]
  cases hx : l[i]? with
  | none => rfl
  | some x => exact h x (List.mem_of_getElem? hx)

/-- A collection that was empty, in the store and in its directory, and has been filled with plain
documents, answers a filter after reopening as the documents with their negative integers widened
do. These are as many and in the same order, and if the filter is clear about each of the documents,
the answers stand at the same places as before. -/
theorem reopened_answers {uri database collection : String} {dir : Path} {conn : Nat}
    {inserts : List (Nat × Document)} {filter : Document} {f : Filter} {g g' : Engine}
    (hleads : g.LeadsTo uri dir) (hloads : CollectionFile.Loads g.files dir)
    (hdir : g.store.directoryOf database = some dir)
    (hname : validCollectionName collection = true)
    (hempty : g.store.documents database collection = [])
    (hfile : CollectionFile.documentsIn g.files dir collection = .ok [])
    (hopen : ∀ e ∈ inserts, g.databaseOf ⟨e.1, collection⟩ = .ok database)
    (hplain : ∀ e ∈ inserts, (Value.document e.2).Plain)
    (hdepth : ∀ e ∈ inserts, (Value.toJson (.document e.2)).depth ≤ Json.maxDepth)
    (hfilled : insertAll collection inserts g = some g')
    (hconn : g.databaseOf ⟨conn, collection⟩ = .ok database)
    (hparse : Filter.parse filter = .ok f) :
    let docs := g'.store.documents database collection
    let reopened := docs.map Value.widenedFields
    (∀ ids, askFresh ids uri collection [] g' = .ok reopened) ∧
    (g'.find ⟨conn, collection⟩ filter).1 = .ok (standingAt docs (places f.eval docs)) ∧
    (∀ ids, askFresh ids uri collection filter g' =
      .ok (standingAt reopened (places f.eval reopened))) ∧
    ((∀ d ∈ docs, Filter.Clear d f.equalities) → places f.eval reopened = places f.eval docs) := by
  have hstart : Mirrored uri database collection dir g := by
    refine ⟨hleads, hloads, hdir, ?_, ?_⟩
    · rw [hempty]
      exact fun d hd => absurd hd List.not_mem_nil
    · rw [hempty]
      exact hfile
  obtain ⟨hmirrored, hconnections⟩ := hstart.insertAll hname hplain hdepth hopen hfilled
  obtain ⟨hleads', hloads', -, -, hfile'⟩ := hmirrored
  intro docs reopened
  refine ⟨askFresh_nil hleads' hloads' hname hfile', ?_, ?_, ?_⟩
  · rw [standingAt_places]
    exact find_eq_ok ((databaseOf_congr hconnections _).trans hconn) hparse
  · intro ids
    rw [standingAt_places]
    exact askFresh_eq hleads' hloads' hname hfile' hparse ids
  · intro hclear
    exact places_map fun d hd => Filter.eval_widened f (hclear d hd)

/-- A document with a negative integer and one with a negative integer inside, and a store that has
taken it into an empty directory. -/
def past : Document := [("_id", .int32 1), ("year", .int32 (-5)), ("at", .array [.int32 (-5)])]

def withPast : Engine := (connected.insert ⟨0, "items"⟩ past).2

theorem insertAll_past : insertAll "items" [(0, past)] connected = some withPast := by rfl

theorem documents_withPast :
    withPast.store.documents "file:///data" "items" = [past] := by rfl

theorem documents_connected : connected.store.documents "file:///data" "items" = [] := by rfl

theorem documentsIn_connected :
    CollectionFile.documentsIn connected.files ["data"] "items" = .ok [] := by rfl

theorem plain_past : ∀ e ∈ [((0 : Nat), past)], (Value.document e.2).Plain := by
  intro e he
  rw [List.mem_singleton.mp he]
  exact ⟨by decide, by decide, trivial, by decide, trivial, by decide, ⟨trivial, trivial⟩, trivial⟩

theorem databaseOf_past : ∀ e ∈ [((0 : Nat), past)],
    connected.databaseOf ⟨e.1, "items"⟩ = .ok "file:///data" := by
  intro e he
  rw [List.mem_singleton.mp he]
  exact databaseOf_connected

theorem mirrored_withPast :
    Mirrored "file:///data" "file:///data" "items" ["data"] withPast := by
  have hstart : Mirrored "file:///data" "file:///data" "items" ["data"] connected := by
    refine ⟨leadsTo_connected, loads_connected, directoryOf_connected, ?_, ?_⟩
    · rw [documents_connected]
      exact fun d hd => absurd hd List.not_mem_nil
    · rw [documents_connected]
      exact documentsIn_connected
  exact (hstart.insertAll (by decide) plain_past (by decide) databaseOf_past insertAll_past).1

/-- The document as another store has it. -/
def reopenedPast : Document :=
  [("_id", .int32 1), ("year", .int64 (-5)), ("at", .array [.int64 (-5)])]

theorem widenedFields_past : Value.widenedFields past = reopenedPast := by rfl

/-- By its year the document is found before and after, though the year has become wide. -/
theorem reopened_answers_past :
    (withPast.find ⟨0, "items"⟩ [("year", .int32 (-5))]).1 = .ok [past] ∧
    askFresh (.numbered 0) "file:///data" "items" [("year", .int32 (-5))] withPast =
      .ok [reopenedPast] := by
  have hparse : Filter.parse [("year", .int32 (-5))] = .ok (.compare "year" .eq (.int32 (-5))) := by
    rfl
  obtain ⟨-, hbefore, hafter, hplaces⟩ := reopened_answers leadsTo_connected loads_connected
    directoryOf_connected (by decide) documents_connected documentsIn_connected databaseOf_past
    plain_past (by decide) insertAll_past databaseOf_connected hparse
  have hclear : Filter.Clear past (Filter.compare "year" .eq (.int32 (-5))).equalities := by
    intro e he v hv
    rw [List.mem_singleton.mp he]
    exact .inr trivial
  rw [documents_withPast] at hbefore hafter hplaces
  rw [hplaces (List.forall_mem_singleton.mpr hclear)] at hafter
  have hfirst : places (Filter.compare "year" .eq (.int32 (-5))).eval [past] = [0] := by decide
  rw [hfirst] at hbefore hafter
  exact ⟨hbefore, hafter _⟩

theorem find_withPast :
    (withPast.find ⟨0, "items"⟩ [("at", .array [.int32 (-5)])]).1 = .ok [past] := by rfl

/-- By what is in its array it is found before and not after, so the answers do not stand at the same
places. -/
theorem not_reopened_answers : ¬ ∀ {uri database collection : String} {dir : Path} {conn : Nat}
    {inserts : List (Nat × Document)} {filter : Document} {f : Filter} {g g' : Engine},
    g.LeadsTo uri dir → CollectionFile.Loads g.files dir →
    g.store.directoryOf database = some dir → validCollectionName collection = true →
    g.store.documents database collection = [] →
    CollectionFile.documentsIn g.files dir collection = .ok [] →
    (∀ e ∈ inserts, g.databaseOf ⟨e.1, collection⟩ = .ok database) →
    (∀ e ∈ inserts, (Value.document e.2).Plain) →
    (∀ e ∈ inserts, (Value.toJson (.document e.2)).depth ≤ Json.maxDepth) →
    insertAll collection inserts g = some g' →
    g.databaseOf ⟨conn, collection⟩ = .ok database → Filter.parse filter = .ok f →
    ∃ reopened positions, askFresh (.numbered 0) uri collection [] g' = .ok reopened ∧
      (g'.find ⟨conn, collection⟩ filter).1 =
        .ok (standingAt (g'.store.documents database collection) positions) ∧
      askFresh (.numbered 0) uri collection filter g' = .ok (standingAt reopened positions) := by
  intro hall
  have hparse : Filter.parse [("at", .array [.int32 (-5)])] =
      .ok (.compare "at" .eq (.array [.int32 (-5)])) := by
    rfl
  obtain ⟨reopened, positions, hreopened, hbefore, hafter⟩ := hall leadsTo_connected
    loads_connected directoryOf_connected (by decide) documents_connected documentsIn_connected
    databaseOf_past plain_past (by decide) insertAll_past databaseOf_connected hparse
  obtain ⟨hleads, hloads, -, -, hfile⟩ := mirrored_withPast
  rw [documents_withPast, List.map_singleton, widenedFields_past] at hfile
  rw [documents_withPast] at hbefore
  have hname : validCollectionName "items" = true := by decide
  have hall : reopened = [reopenedPast] :=
    Except.ok.inj (hreopened.symm.trans (askFresh_nil hleads hloads hname hfile _))
  have hfound : standingAt [past] positions = [past] :=
    Except.ok.inj (hbefore.symm.trans find_withPast)
  have hlost : standingAt reopened positions = [] :=
    Except.ok.inj (hafter.symm.trans (askFresh_eq hleads hloads hname hfile hparse _))
  have hmem : past ∈ standingAt [past] positions := by
    rw [hfound]
    exact List.mem_singleton_self _
  obtain ⟨i, hi, hpast⟩ := List.mem_filterMap.mp hmem
  obtain rfl : i = 0 := by
    have hlt := (List.getElem?_eq_some_iff.mp hpast).1
    rw [List.length_singleton] at hlt
    omega
  have hmem' : reopenedPast ∈ standingAt reopened positions := by
    rw [hall]
    exact List.mem_filterMap.mpr ⟨0, hi, rfl⟩
  rw [hlost] at hmem'
  cases hmem'

end Engine
end DocQuery
