import DocQuery.Proofs.Histories

/-
  Which connections share data. A connection leads to the place that its string names when it is
  opened. Connections to one place share a database, and those to two places do not, if keys tell
  the places apart. `sharing` says so of every history of a store, with what it means for the
  documents: a change that goes through is found through every handle on the collection at the same
  place, whenever the handles were taken, and no other collection changes. Two limits are shown
  behind it (`not_sharing`): names in memory with a slash inside are refused, and directories whose
  paths are shown alike share a database.
-/

namespace DocQuery.Engine

/-- Whether every search through a handle finds what its filter lets through of some documents. -/
def Shows (g : Engine) (h : Handle) (docs : List Document) : Prop :=
  ∀ filter f, Filter.parse filter = .ok f →
    (g.perform h (.find filter)).1 = .ok (.documents (docs.filter f.eval))

theorem shows_of_open {g : Engine} {h : Handle} {database : String}
    (hopen : g.databaseOf h = .ok database) :
    g.Shows h (g.store.documents database h.collection) :=
  fun _ _ hparse => (perform_find (prepare_eq_ok.mpr ⟨hopen, hparse⟩)).1

theorem databaseOf_of_target {g : Engine} {h : Handle} {database : String}
    (hopen : g.IsOpen h.connection) (htarget : g.targets[h.connection]? = some database) :
    g.databaseOf h = .ok database := by
  obtain ⟨database', hconn⟩ := hopen
  cases (targets_of_connection? hconn).symm.trans htarget
  exact databaseOf_eq_ok.mpr hconn

/-- What a change through a handle means for a store, up to a later state: the documents that were
found through the handle are replaced, those in their place are found through all handles on the
collection at the same place until something else is written to it, and nothing else changes. -/
structure Visible (history later : List Moment) (g : Engine) (m : Moment) (h : Handle)
    (place : Place) (docs : List Document) : Prop where
  before : m.before.Shows h (m.before.store.documents place.key h.collection)
  after : (∀ m' ∈ later, ¬ m'.Writes place.key h.collection) → ∀ m₂ ∈ history, ∀ uri h₂,
    m₂.Opens uri h₂.connection place → h₂.collection = h.collection →
    g.IsOpen h₂.connection → g.Shows h₂ docs
  elsewhere : ∀ database collection, (database, collection) ≠ (place.key, h.collection) →
    m.after.store.documents database collection = m.before.store.documents database collection

/-- A string that names a database in memory is accepted exactly if no slash is left inside the
name. -/
theorem connects_iff {files : FileTree} {workingDirectory : Path} {uri name : String}
    (h : Names files workingDirectory uri (.memory name)) (g : Engine) :
    (∃ n, (g.connect uri).1 = .ok n) ↔ '/' ∉ name.toList := by
  unfold connect
  rw [Address.parse_of_names h]
  by_cases hslash : '/' ∈ name.toList
  · rw [if_pos hslash]
    simp [hslash]
  · rw [if_neg hslash]
    exact ⟨fun _ => hslash, fun _ => ⟨_, rfl⟩⟩

theorem Ends.connects_iff {g g' : Engine} {uri name : String} {outcome : Except StoreError Answer}
    (hends : Ends g (.connect uri) outcome g') {files : FileTree} {workingDirectory : Path}
    (h : Names files workingDirectory uri (.memory name)) :
    (∃ n, outcome = .ok (.connection n)) ↔ '/' ∉ name.toList := by
  have hanswer (g : Engine) :
      (∃ n, (act (.connect uri) g).1 = .ok (.connection n)) ↔ '/' ∉ name.toList := by
    rw [← Engine.connects_iff h g]
    unfold act
    dsimp only
    cases (g.connect uri).1 with
    | error e => simp [Except.map]
    | ok n => simp [Except.map]
  cases hends with
  | done => exact hanswer g
  | disturbed during left hfails =>
    rw [← hanswer { g with files := during }, hfails]

/-- How the connections of a store share their data. -/
structure Sharing (history : List Moment) (g : Engine) : Prop where
  /-- Every connection was opened at some moment, to a place that its string named then. -/
  opened : ∀ n conn, g.connection? n = some conn →
    ∃ m ∈ history, ∃ uri place, m.Opens uri n place
  /-- Where connecting succeeds, the string names a place, to which the connection is opened. -/
  named : ∀ m ∈ history, ∀ uri n, m.event = .acted (.connect uri) (.ok (.connection n)) →
    ∃ place, m.Opens uri n place
  /-- Connecting to a database in memory succeeds exactly if no slash is left inside its name. -/
  accepted : ∀ m ∈ history, ∀ uri outcome name, m.event = .acted (.connect uri) outcome →
    Names m.after.files m.after.workingDirectory uri (.memory name) →
    ((∃ n, outcome = .ok (.connection n)) ↔ '/' ∉ name.toList)
  /-- Connections that were opened to one place lead to one database. -/
  together : ∀ m₁ ∈ history, ∀ m₂ ∈ history, ∀ uri₁ uri₂ n₁ n₂ place,
    m₁.Opens uri₁ n₁ place → m₂.Opens uri₂ n₂ place → g.targets[n₁]? = g.targets[n₂]?
  /-- Two connections lead to the same database exactly if they were opened to the same place, where
  keys tell the two places apart. -/
  same : ∀ m₁ ∈ history, ∀ m₂ ∈ history, ∀ uri₁ uri₂ n₁ n₂ place₁ place₂,
    m₁.Opens uri₁ n₁ place₁ → m₂.Opens uri₂ n₂ place₂ → place₁.ToldByKey place₂ →
    (g.targets[n₁]? = g.targets[n₂]? ↔ place₁ = place₂)
  /-- A change that goes through does what its request asks for, at its place and nowhere else, and
  is visible there. -/
  visible : ∀ before m later h r answer, history = before ++ m :: later →
    m.event = .acted (.request h r) (.ok answer) → Request.IsChange r →
    ∀ m₁ ∈ history, ∀ uri place, m₁.Opens uri h.connection place →
    ∃ report docs, answer = .report report ∧
      r.outcome m.before.store (m.before.store.documents place.key h.collection) =
        .ok (report, docs) ∧
      Visible history later g m h place docs

/-- So it is after every history. -/
theorem sharing {files : FileTree} {workingDirectory : Path} {ids : Nat → ObjectId}
    (hworking : workingDirectory.Proper) {history : List Moment} {g : Engine}
    (h : History (fresh files workingDirectory ids) history g) : Sharing history g where
  opened n conn hconn := by
    rcases h.opens_of_target (targets_of_connection? hconn) with hnone | hopened
    · cases hnone
    · exact hopened
  named m hm uri n hevent := h.exists_opens hm hevent
  accepted m hm uri outcome name hevent hnames := by
    have hhappens := h.happens hm
    rw [hevent] at hhappens
    cases hhappens with
    | acted hends => exact hends.connects_iff hnames
  together m₁ hm₁ m₂ hm₂ uri₁ uri₂ n₁ n₂ place hopens₁ hopens₂ := by
    rw [(h.target_of_opens hm₁ hopens₁).1, (h.target_of_opens hm₂ hopens₂).1]
  same m₁ hm₁ m₂ hm₂ uri₁ uri₂ n₁ n₂ place₁ place₂ hopens₁ hopens₂ htold := by
    rw [(h.target_of_opens hm₁ hopens₁).1, (h.target_of_opens hm₂ hopens₂).1]
    constructor
    · intro hkeys
      exact Place.key_inj (h.proper_of_opens hm₁ hopens₁ hworking)
        (h.proper_of_opens hm₂ hopens₂ hworking) htold (Option.some.inj hkeys)
    · rintro rfl
      rfl
  visible before m later handle r answer hhistory hevent hr m₁ hm₁ uri place hopens := by
    subst hhistory
    obtain ⟨hbefore, hhappens, hlater⟩ := h.at_moment
    obtain ⟨report, database, rfl, hopen, hchanges⟩ := Moment.exists_changes hhappens hevent hr
    -- the handle leads where its connection was opened to
    have htarget := targets_of_connection? (databaseOf_eq_ok.mp hopen)
    have hkept := ((Moment.continues hhappens).trans hlater.continues).target htarget
    obtain rfl : database = place.key :=
      Option.some.inj (hkept.symm.trans (h.target_of_opens hm₁ hopens).1)
    obtain ⟨docs, hout, -, hleaves⟩ := hchanges.outcome hhappens
    refine ⟨report, docs, rfl, hout, shows_of_open hopen, ?_, hleaves.elsewhere⟩
    intro hquiet m₂ hm₂ uri₂ h₂ hopens₂ hcollection hopen₂
    have hthere : m.after.store.Has place.key :=
      (Moment.continues hhappens).has
        (hbefore.continues.wired (wired_fresh _ _ _) _ (List.mem_of_getElem? htarget))
    have hdocs := (hlater.replays hthere handle.collection).eq_of_quiet hquiet
    rw [hleaves.here] at hdocs
    rw [← hdocs, ← hcollection]
    exact shows_of_open (databaseOf_of_target hopen₂ (h.target_of_opens hm₂ hopens₂).1)

/-- A store that is new, and the same store with a first and a second connection to one database,
by different strings. -/
def unopened : Engine := fresh .empty [] (.numbered 0)

def openedOnce : Engine := (unopened.act (.connect "memory://shop/")).2

def openedTwice : Engine := (openedOnce.act (.connect "memory:///shop")).2

/-- Adds an item through the first connection. -/
def stockUp : Action := .request ⟨0, "items"⟩ (.insert [("_id", .int32 1)])

/-- The moments up to the first item. -/
def opening : List Moment :=
  [⟨unopened, .acted (.connect "memory://shop/") (.ok (.connection 0)), openedOnce⟩,
    ⟨openedOnce, .acted (.connect "memory:///shop") (.ok (.connection 1)), openedTwice⟩]

def stocking : Moment :=
  ⟨openedTwice, .acted stockUp (.ok (.report (.inserted (.int32 1)))), (openedTwice.act stockUp).2⟩

theorem history_stocking : History unopened (opening ++ [stocking]) (openedTwice.act stockUp).2 :=
  .next (.acted (.done (.connect "memory://shop/")))
    (.next (.acted (.done (.connect "memory:///shop"))) (.next (.acted (.done stockUp)) (.start _)))

/-- The item that is added through the first connection is found through the second. -/
theorem sharing_stocking :
    (openedTwice.act stockUp).2.Shows ⟨1, "items"⟩ [[("_id", .int32 1)]] := by
  have hshop : ∀ {uri : String} {text : List Char} (files : FileTree),
      uri.toList = "memory://".toList ++ text → Stripped text "shop".toList →
      Names files [] uri (.memory "shop") := fun _ huri hname => .memory huri hname
  have hfirst : Moment.Opens
      ⟨unopened, .acted (.connect "memory://shop/") (.ok (.connection 0)), openedOnce⟩
      "memory://shop/" 0 (.memory "shop") :=
    ⟨rfl, hshop .empty (show _ = _ ++ "shop/".toList by decide) ⟨0, 1, by decide⟩⟩
  have hsecond : Moment.Opens
      ⟨openedOnce, .acted (.connect "memory:///shop") (.ok (.connection 1)), openedTwice⟩
      "memory:///shop" 1 (.memory "shop") :=
    ⟨rfl, hshop .empty (show _ = _ ++ "/shop".toList by decide) ⟨1, 0, by decide⟩⟩
  obtain ⟨report, docs, hreport, hout, hvisible⟩ :=
    (sharing Path.proper_nil history_stocking).visible opening stocking [] ⟨0, "items"⟩ _ _ rfl rfl
      trivial _ List.mem_cons_self _ _ hfirst
  obtain rfl : docs = [[("_id", .int32 1)]] := by
    cases hout
    rfl
  exact hvisible.after (fun _ hm => absurd hm List.not_mem_nil) _
    (List.mem_cons_of_mem _ List.mem_cons_self) _ ⟨1, "items"⟩ hsecond rfl ⟨"shop", rfl⟩

/-! ## Where sharing ends -/

/-- Whether connections by two strings, one opened after the other, lead to the same database. -/
def Together (uri uri' : String) (g : Engine) : Prop :=
  ∃ n g₁ n' g₂, g.connect uri = (.ok n, g₁) ∧ g₁.connect uri' = (.ok n', g₂) ∧
    g₂.targets[n]? = g₂.targets[n']?

/-- Two names that are shown alike, and directories of these names behind links. -/
def nameFF : FileName := .bytes [0xFF] (by decide)

def nameFE : FileName := .bytes [0xFE] (by decide)

def linked : FileTree :=
  ⟨[([nameFF], .directory), ([nameFE], .directory),
    (["first"], .link ⟨true, [nameFF], by decide⟩),
    (["second"], .link ⟨true, [nameFE], by decide⟩)]⟩

theorem makeDirectories_linked :
    linked.makeDirectories [] "/first" = ⟨linked, .ok [nameFF]⟩ ∧
      linked.makeDirectories [] "/second" = ⟨linked, .ok [nameFE]⟩ :=
  ⟨by rfl, by rfl⟩

theorem directoryKey_linked :
    directoryKey [nameFF] = "file:///\uFFFD" ∧ directoryKey [nameFE] = "file:///\uFFFD" := by
  decide

/-- A store that has connected to the first directory. -/
def connectedFF : Engine :=
  ⟨linked, [], ⟨[("file:///\uFFFD", ⟨some [nameFF], []⟩)], [⟨"file:///\uFFFD", false⟩], 1, 0,
    .numbered 0⟩, [⟨.debug, Log.storeTarget, "connection #0 opened (file:///first)"⟩]⟩

theorem connect_first :
    (fresh linked [] (.numbered 0)).connect "file:///first" = (.ok 0, connectedFF) := by
  have haddress : Address.parse "file:///first" = .ok (.directory "/first") := by decide
  have hload : CollectionFile.loadDirectory linked [nameFF] = ⟨[], .ok []⟩ := by rfl
  unfold connect
  rw [haddress]
  dsimp only [fresh]
  rw [makeDirectories_linked.1]
  dsimp only
  rw [directoryKey_linked.1, hload]
  rfl

theorem connect_second : connectedFF.connect "file:///second" =
    openConnection "file:///\uFFFD" "file:///second" connectedFF := by
  have haddress : Address.parse "file:///second" = .ok (.directory "/second") := by decide
  unfold connect
  rw [haddress]
  dsimp only [connectedFF]
  rw [makeDirectories_linked.2]
  dsimp only
  rw [directoryKey_linked.2]
  rfl

/-- Two strings whose names are equal without the slashes at their ends may be refused, and
directories with different paths may share a database. -/
theorem not_sharing :
    (∃ place, Names unopened.files [] "memory://x/y" place ∧
      Names unopened.files [] "memory:///x/y/" place ∧
      ¬ Together "memory://x/y" "memory:///x/y/" unopened) ∧
    ∃ dir dir', dir ≠ dir' ∧ Names linked [] "file:///first" (.directory dir) ∧
      Names linked [] "file:///second" (.directory dir') ∧
      Together "file:///first" "file:///second" (fresh linked [] (.numbered 0)) := by
  constructor
  · have hnames : ∀ {uri : String} {text : List Char}, uri.toList = "memory://".toList ++ text →
        Stripped text "x/y".toList → Names unopened.files [] uri (.memory "x/y") :=
      fun huri hname => .memory huri hname
    have hplain := hnames (show "memory://x/y".toList = _ ++ "x/y".toList by decide)
      ⟨0, 0, by decide⟩
    refine ⟨_, hplain, hnames (show "memory:///x/y/".toList = _ ++ "/x/y/".toList by decide)
      ⟨1, 1, by decide⟩, ?_⟩
    rintro ⟨n, g₁, n', g₂, hconnect, -, -⟩
    have hslash := (connects_iff hplain unopened).mp ⟨n, by rw [hconnect]⟩
    exact hslash (by decide)
  · refine ⟨[nameFF], [nameFE], by decide,
      .directory (show "file:///first" = "file://" ++ "/first" by rfl) (by rfl),
      .directory (show "file:///second" = "file://" ++ "/second" by rfl) (by rfl), ?_⟩
    exact ⟨0, connectedFF, 1, _, connect_first, connect_second, by rfl⟩

end DocQuery.Engine
