import DocQuery.Proofs.Histories

/-
  The database of a directory. Its name is how the path of the directory is shown. It is there from
  the first connection to a directory that is shown so, and it is read from the files then and
  written to them, unless its name was seeded or looked at before: then it is a database in memory
  that the connections share. `directory_database` says which of the two it is after a history, and
  what follows. Where a database comes from is read off the history, event by event.
-/

namespace DocQuery.Engine

open CollectionFile (HoldsLines documentsIn)

/-! ## Where a database comes from -/

/-- Connecting to a place leaves the databases of all others. -/
theorem get?_connect_other {uri : String} {g g' : Engine} {place : Place} {n : Nat}
    (h : g.connect uri = (.ok n, g')) (harrives : Arrives uri g place n g') {name : String}
    (hname : name ≠ place.key) :
    Keyed.get? g'.store.databases name = Keyed.get? g.store.databases name := by
  have hend := g.connecting uri
  rw [h] at hend
  cases hend with
  | @opened key db _ hopened =>
    have hkey : key = place.key := by
      have hconns := hopened.connections.symm.trans harrives.connections
      exact congrArg Connection.database (List.cons.inj (List.append_cancel_left hconns)).1
    rw [hopened.databases, hkey]
    unfold withDatabase
    split
    · rfl
    · exact Keyed.get?_put_other _ _ hname

/-- Connecting to a directory that is new reads its files. -/
theorem loads_of_connect {uri : String} {g g' : Engine} {dir : Path} {n : Nat}
    (h : g.connect uri = (.ok n, g')) (harrives : Arrives uri g (.directory dir) n g')
    (hnew : ¬ g.store.Has (directoryKey dir)) : ∃ collections,
      (CollectionFile.loadDirectory g'.files dir).result = .ok collections ∧
      Keyed.get? g'.store.databases (directoryKey dir) = some ⟨some dir, collections⟩ := by
  obtain ⟨text, haddress, hleads⟩ := harrives.reaches
  unfold connect at h
  rw [haddress] at h
  dsimp only at h
  split at h
  · cases h
  · next files dir' hmade =>
    -- made or found, the directory is the one that the text leads to afterwards
    have hdir : g'.files = files → dir' = dir := by
      rintro rfl
      have hkept := FileTree.makeDirectories_kept hmade (.refl g'.files)
      rw [← harrives.workingDirectory, hleads] at hkept
      exact (Except.ok.inj (FileTree.Made.mk.inj hkept).2).symm
    split at h
    · next db hdb =>
      cases h
      cases hdir rfl
      exact absurd (Store.has_iff.mpr ⟨db, hdb⟩) hnew
    · split at h
      · cases h
      · next collections hload =>
        cases h
        cases hdir rfl
        exact ⟨collections, hload, Keyed.get?_put_self _ _ _⟩

/-- An event that can bring up a database of a name: the name is mentioned, or a connection is
opened to the place that has it as its key. -/
def Moment.Brings (m : Moment) (name : String) : Prop :=
  m.Mentions name ∨ ∃ uri n place, m.Opens uri n place ∧ place.key = name

/-- A database was there, or the event has brought it up. -/
theorem Moment.origin {m : Moment} (hm : Happens m.before m.event m.after)
    (hwired : m.before.Wired) {name : String} (hname : m.after.store.Has name) :
    m.before.store.Has name ∨ m.Brings name := by
  cases Moment.moves hm with
  | @opens uri n place hopens harrives hconnect =>
    by_cases hkey : name = place.key
    · exact .inr (.inr ⟨uri, n, place, hopens, hkey.symm⟩)
    · rw [Store.has_iff, get?_connect_other hconnect harrives hkey] at hname
      exact .inl (Store.has_iff.mpr hname)
  | mentions hmentions _ _ hhas =>
    refine ((hhas _).mp hname).imp_right ?_
    rintro rfl
    exact .inl hmentions
  | stays hstays => exact .inl ((hstays.has_of hname).elim id (hwired name))

/-- Every database was there before a history, or has been brought up in it. -/
theorem History.origin {g g' : Engine} {history : List Moment} (h : History g history g')
    (hwired : g.Wired) {name : String} (hname : g'.store.Has name) :
    g.store.Has name ∨ ∃ m ∈ history, m.Brings name := by
  refine (h.keeps (P := fun g₁ => g₁.Wired ∧
    (g₁.store.Has name → g.store.Has name ∨ ∃ m ∈ history, m.Brings name)) ?_
    ⟨hwired, .inl⟩).2 hname
  rintro m hmem hm ⟨hwired, hbefore⟩
  refine ⟨(Moment.continues hm).wired hwired, ?_⟩
  intro hafter
  rcases Moment.origin hm hwired hafter with hthere | hbrings
  · exact hbefore hthere
  · exact .inr ⟨m, hmem, hbrings⟩

/-- Only connecting to a place decides where its database is kept. -/
theorem Moment.directoryOf_eq {m : Moment} (hm : Happens m.before m.event m.after) {name : String}
    (hnone : ∀ uri n place, m.Opens uri n place → place.key ≠ name) :
    m.after.store.directoryOf name = m.before.store.directoryOf name := by
  cases Moment.moves hm with
  | opens hopens harrives hconnect =>
    unfold Store.directoryOf
    rw [get?_connect_other hconnect harrives (hnone _ _ _ hopens).symm]
  | mentions _ _ _ _ hdirs => exact hdirs name
  | stays hstays => exact hstays.directoryOf name

theorem History.directoryOf_eq {g g' : Engine} {history : List Moment} (h : History g history g')
    {name : String}
    (hnone : ∀ m ∈ history, ∀ uri n place, m.Opens uri n place → place.key ≠ name) :
    g'.store.directoryOf name = g.store.directoryOf name := by
  refine h.keeps (P := fun g₁ => g₁.store.directoryOf name = g.store.directoryOf name) ?_ rfl
  intro m hmem hm hbefore
  rw [Moment.directoryOf_eq hm (hnone m hmem), hbefore]

/-- A name that is mentioned has a database from then on. -/
theorem History.has_of_mentions {g g' : Engine} {history : List Moment} (h : History g history g')
    {m : Moment} (hm : m ∈ history) {name : String} (hmentions : m.Mentions name) :
    g'.store.Has name := by
  obtain ⟨before, later, rfl⟩ := List.append_of_mem hm
  obtain ⟨-, hhappens, hlater⟩ := h.at_moment
  refine hlater.continues.has ?_
  obtain ⟨g, e, g₁⟩ := m
  dsimp only at hhappens ⊢
  cases hhappens with
  | seeded =>
    rcases hmentions with ⟨_, _, hevent⟩ | ⟨_, hevent⟩
    · cases hevent
      exact (Store.has_seed_iff ..).mpr (.inr rfl)
    · cases hevent
  | dumped =>
    rcases hmentions with ⟨_, _, hevent⟩ | ⟨_, hevent⟩
    · cases hevent
    · cases hevent
      exact (Store.has_ensureDatabase_iff ..).mpr (.inr rfl)
  | acted | others =>
    rcases hmentions with ⟨_, _, hevent⟩ | ⟨_, hevent⟩
    · cases hevent
    · cases hevent

/-- Opening a connection writes to no collection. -/
theorem Moment.Opens.not_writes {m : Moment} {uri : String} {n : Nat} {place : Place}
    (h : m.Opens uri n place) (database collection : String) : ¬ m.Writes database collection := by
  rintro (⟨r, report, -, handle, hevent, -⟩ | ⟨docs, hevent⟩)
  · cases h.event.symm.trans hevent
  · cases h.event.symm.trans hevent

/-! ## The database of a directory -/

/-- A database that is kept in its directory: the first connection has read the files, and each
change of a collection leaves one line for each of its documents in the file of the collection. -/
structure OnDisk (m : Moment) (later : List Moment) (g : Engine) (dir : Path) : Prop where
  kept : g.store.directoryOf (directoryKey dir) = some dir
  loaded : ∀ collection, collection ≠ "" → documentsIn m.after.files dir collection =
    .ok (m.after.store.documents (directoryKey dir) collection)
  written : ∀ m' ∈ later, ∀ collection r report,
    m'.Changes (directoryKey dir) collection r report →
    HoldsLines (m'.after.fileOf dir collection)
      (m'.after.store.documents (directoryKey dir) collection)

/-- A database that is kept nowhere: the first connection has found the documents that were in
memory, and no change writes a file. -/
structure OnlyInMemory (m : Moment) (later : List Moment) (g : Engine) (dir : Path) : Prop where
  kept : g.store.directoryOf (directoryKey dir) = none
  unread : ∀ collection, m.after.store.documents (directoryKey dir) collection =
    m.before.store.documents (directoryKey dir) collection
  unwritten : ∀ m' ∈ later, ∀ collection r report,
    m'.Changes (directoryKey dir) collection r report → m'.after.files = m'.before.files

/-- What is behind the connections to a directory, from the first one on. -/
structure DirectoryDatabase (before : List Moment) (m : Moment) (later : List Moment) (g : Engine)
    (dir : Path) : Prop where
  /-- The connections that lead to it are those that were opened to the directory, and to any other
  that is shown like it. -/
  connections : ∀ m' ∈ before ++ m :: later, ∀ uri n place, m'.Opens uri n place →
    (g.targets[n]? = some (directoryKey dir) ↔
      ∃ dir', place = .directory dir' ∧ dir'.text = dir.text)
  /-- It is kept in the directory as long as its name was not mentioned before. -/
  onDisk : (∀ m' ∈ before, ¬ m'.Mentions (directoryKey dir)) → OnDisk m later g dir
  inMemory : (∃ m' ∈ before, m'.Mentions (directoryKey dir)) → OnlyInMemory m later g dir
  /-- Since then its documents were changed through its connections, and by seeding its name. -/
  replayed : ∀ collection, Replays (directoryKey dir) collection later
    (m.after.store.documents (directoryKey dir) collection)
    (g.store.documents (directoryKey dir) collection)

section First

variable {files : FileTree} {workingDirectory : Path} {ids : Nat → ObjectId} {g : Engine}
  {before later : List Moment} {m : Moment} {uri : String} {n : Nat} {dir : Path}
  (hworking : workingDirectory.Proper)
  (h : History (fresh files workingDirectory ids) (before ++ m :: later) g)
  (hm : m.Opens uri n (.directory dir))
  (hfirst : ∀ m' ∈ before, ∀ uri n dir', m'.Opens uri n (.directory dir') →
    dir'.text ≠ dir.text)
include hworking h hfirst

/-- Before the first connection to a directory that is shown so, none was opened to a place with its
key. -/
theorem key_ne_of_first : ∀ m' ∈ before, ∀ uri n place, m'.Opens uri n place →
    place.key ≠ directoryKey dir := by
  intro m' hm' uri' n' place hopens hkey
  have hproper := h.proper_of_opens (List.mem_append_left _ hm') hopens hworking
  obtain ⟨dir', rfl, htext⟩ := (Place.key_eq_directoryKey hproper).mp hkey
  exact hfirst m' hm' uri' n' dir' hopens htext

include hm

theorem onDisk_of_first (hfree : ∀ m' ∈ before, ¬ m'.Mentions (directoryKey dir)) :
    OnDisk m later g dir := by
  have hkeys := key_ne_of_first hworking h hfirst
  obtain ⟨hbefore, hhappens, hlater⟩ := h.at_moment
  have hnew : ¬ m.before.store.Has (directoryKey dir) := by
    intro hthere
    rcases hbefore.origin (wired_fresh files workingDirectory ids) hthere with
      hnone | ⟨m', hm', hmentions | ⟨uri', n', place, hopens, hkey⟩⟩
    · cases hnone
    · exact hfree m' hm' hmentions
    · exact hkeys m' hm' uri' n' place hopens hkey
  have harrives := hm.arrives hhappens
  obtain ⟨collections, hload, hdb⟩ :=
    loads_of_connect (Moment.connect_eq hhappens hm.event) harrives hnew
  have hdir : m.after.store.directoryOf (directoryKey dir) = some dir := by
    unfold Store.directoryOf
    rw [hdb]
    rfl
  refine ⟨(hlater.continues.directoryOf harrives.there).trans hdir, ?_, ?_⟩
  · intro collection hname
    rw [CollectionFile.documentsIn_of_loadDirectory hload hname]
    unfold Store.documents
    rw [hdb]
  · intro m' hm' collection r report hchanges
    obtain ⟨earlier, rest, rfl⟩ := List.append_of_mem hm'
    obtain ⟨hearlier, hhappens', -⟩ := hlater.at_moment
    obtain ⟨docs, -, hsave, hleaves⟩ := hchanges.outcome hhappens'
    rw [hleaves.here]
    exact holdsLines_of_save hsave
      ((hearlier.continues.directoryOf harrives.there).trans hdir)

theorem onlyInMemory_of_first (hmentioned : ∃ m' ∈ before, m'.Mentions (directoryKey dir)) :
    OnlyInMemory m later g dir := by
  have hkeys := key_ne_of_first hworking h hfirst
  obtain ⟨hbefore, hhappens, hlater⟩ := h.at_moment
  obtain ⟨m', hm', hmentions⟩ := hmentioned
  have hthere := hbefore.has_of_mentions hm' hmentions
  have hcontinues := Moment.continues hhappens
  have hdir : m.after.store.directoryOf (directoryKey dir) = none := by
    rw [hcontinues.directoryOf hthere, hbefore.directoryOf_eq hkeys]
    rfl
  refine ⟨(hlater.continues.directoryOf (hcontinues.has hthere)).trans hdir,
    fun collection => Moment.documents_quiet hhappens hthere (hm.not_writes _ collection), ?_⟩
  intro m₁ hm₁ collection r report hchanges
  obtain ⟨earlier, rest, rfl⟩ := List.append_of_mem hm₁
  obtain ⟨hearlier, hhappens₁, -⟩ := hlater.at_moment
  obtain ⟨docs, -, hsave, -⟩ := hchanges.outcome hhappens₁
  unfold save at hsave
  rw [(hearlier.continues.directoryOf (hcontinues.has hthere)).trans hdir] at hsave
  exact (CollectionFile.Written.mk.inj hsave).1.symm

/-- So it is with the database of every directory after every history. -/
theorem directory_database : DirectoryDatabase before m later g dir where
  connections m' hm' uri' n' place hopens := by
    rw [(h.target_of_opens hm' hopens).1, Option.some_inj]
    exact Place.key_eq_directoryKey (h.proper_of_opens hm' hopens hworking)
  onDisk := onDisk_of_first hworking h hm hfirst
  inMemory := onlyInMemory_of_first hworking h hm hfirst
  replayed collection := by
    obtain ⟨-, hhappens, hlater⟩ := h.at_moment
    exact hlater.replays (hm.arrives hhappens).there collection

end First

/-- A store that has not been used, over an empty directory. -/
def untouched : Engine := fresh emptyData [] (.numbered 0)

/-- How a store that leads to some state by connecting to the directory does so. -/
def connectData (g g' : Engine) : Moment :=
  ⟨g, .acted (.connect "file:///data") (.ok (.connection 0)), g'⟩

theorem opens_connectData {g g' : Engine} (h : g'.LeadsTo "file:///data" ["data"]) :
    (connectData g g').Opens "file:///data" 0 (.directory ["data"]) :=
  ⟨rfl, Reaches.names h⟩

/-- The first change after it. -/
def firstItem : Moment :=
  ⟨connected, .acted (.request ⟨0, "items"⟩ (.insert (due (.int32 5))))
    (.ok (.report (.inserted (.int32 1)))), withDue (.int32 5)⟩

theorem history_firstItem :
    History untouched ([] ++ connectData untouched connected :: [firstItem])
      (withDue (.int32 5)) :=
  .next (.acted (ends_of_act act_data)) (.next (.acted (ends_of_act (act_due _))) (.start _))

/-- An item that is added to the database of a directory is written to it. -/
theorem directory_database_firstItem :
    (withDue (.int32 5)).store.directoryOf "file:///data" = some (["data"] : Path) ∧
      HoldsLines ((withDue (.int32 5)).fileOf ["data"] "items") [due (.int32 5)] := by
  have hdisk := (directory_database Path.proper_nil history_firstItem
    (opens_connectData leadsTo_connected) fun _ hm => absurd hm List.not_mem_nil).onDisk
    fun _ hm => absurd hm List.not_mem_nil
  have hr : Request.IsChange (.insert (due (.int32 5))) := trivial
  have hkept := hdisk.kept
  have hwritten := hdisk.written firstItem List.mem_cons_self "items" _ _
    ⟨hr, ⟨0, "items"⟩, rfl, databaseOf_connected, rfl⟩
  rw [directoryKey_data] at hkept hwritten
  rw [← documents_withDue]
  exact ⟨hkept, hwritten⟩

/-- The store after a document was seeded under the name of the directory, and how it was. -/
def seededData : Engine :=
  { untouched with store := untouched.store.seed "file:///data" "items" [[("_id", .int32 1)]] }

def seedData : Moment :=
  ⟨untouched, .seeded "file:///data" "items" [[("_id", .int32 1)]], seededData⟩

/-- The store after it has connected to the directory then. -/
def sharingSeed : Engine := (openConnection "file:///data" "file:///data" seededData).2

theorem act_seededData : seededData.act (.connect "file:///data") =
    (.ok (.connection 0), sharingSeed) := by
  have hdb : Keyed.get? seededData.store.databases "file:///data" =
      some ⟨none, [("items", [[("_id", .int32 1)]])]⟩ := by rfl
  have hmade : seededData.files.makeDirectories seededData.workingDirectory "/data" =
      ⟨seededData.files, .ok ["data"]⟩ := makeDirectories_data
  unfold act connect
  dsimp only
  rw [parse_data]
  dsimp only
  rw [hmade]
  dsimp only
  rw [directoryKey_data, hdb]
  rfl

theorem history_seedData :
    History untouched ([seedData] ++ connectData seededData sharingSeed :: []) sharingSeed :=
  .next (.seeded ..) (.next (.acted (ends_of_act act_seededData)) (.start _))

/-- A database that was seeded under the name of a directory is what the connections to the
directory lead to, so it is not always kept there. -/
theorem not_directory_database : ¬ ∀ {files : FileTree} {workingDirectory : Path}
    {ids : Nat → ObjectId} {g : Engine} {before later : List Moment} {m : Moment} {uri : String}
    {n : Nat} {dir : Path}, workingDirectory.Proper →
    History (fresh files workingDirectory ids) (before ++ m :: later) g →
    m.Opens uri n (.directory dir) →
    (∀ m' ∈ before, ∀ uri n dir', m'.Opens uri n (.directory dir') → dir'.text ≠ dir.text) →
    OnDisk m later g dir := by
  intro hall
  have hleads : sharingSeed.LeadsTo "file:///data" ["data"] :=
    ⟨"/data", parse_data, makeDirectories_data⟩
  have hdisk := hall Path.proper_nil history_seedData (opens_connectData hleads) (by
    intro m' hm' uri n dir' hopens
    rw [List.mem_singleton.mp hm'] at hopens
    cases hopens.event)
  have hkept := hdisk.kept
  rw [directoryKey_data] at hkept
  cases hkept

end DocQuery.Engine
