import DocQuery.Proofs.ReadableValues
import DocQuery.Proofs.Reloading
import DocQuery.Proofs.Requests
import DocQuery.Proofs.Ways

/-
  Whether a store can open again what another one has written. After a change that succeeds, the
  directory is loaded again exactly if every document of the changed collection has a line that can
  be read. Some do not: a document may hold a name of the format with a body that is refused, and a
  single one of them keeps the whole directory from being opened.
-/

namespace DocQuery

namespace CollectionFile

/-! ## Loading after a write -/

/-- Whether a directory can be loaded. -/
def Loads (files : FileTree) (dir : Path) : Prop :=
  ∃ collections, (loadDirectory files dir).result = .ok collections

theorem loads_iff {files : FileTree} {dir : Path}
    (hchecked : FileTree.checkPath dir = .ok ()) : Loads files dir ↔
      ∀ e ∈ files.children dir, (collectionOf? e.1).isSome = true →
        ∃ docs, readEntry (Path.text (dir ++ [e.1])) e.2 = .ok docs := by
  unfold Loads loadDirectory
  rw [hchecked]
  exact exists_loadEntries dir (files.children dir)

section Wrote

variable {files files' : FileTree} {dir : Path} {collection : String} {docs : List Document}
  (h : Wrote files files' dir collection docs)
include h

/-- No directory or link is lost. -/
theorem Wrote.keeps : FileTree.Keeps files files' := by
  intro p e hp hway
  have hisWay : files.isWay p = true := by
    unfold FileTree.isWay
    rw [hp]
    exact hway
  rw [h.get?_other ?_ ?_]
  · exact hp
  · rintro rfl
    exact absurd hisWay (Bool.eq_false_iff.mp h.target)
  · rintro rfl
    exact absurd hisWay (Bool.eq_false_iff.mp h.temporary)

theorem Wrote.mem_children_self :
    (fileName collection, .file (.text (textOf docs))) ∈ files'.children dir := by
  rw [mem_children, h.entries]
  exact Keyed.mem_put_self _ _ _

theorem Wrote.mem_children_cases {e : FileName × Entry} (he : e ∈ files'.children dir) :
    e = (fileName collection, .file (.text (textOf docs))) ∨ e ∈ files.children dir := by
  obtain ⟨name, entry⟩ := e
  rw [mem_children, h.entries] at he
  rcases Keyed.mem_of_mem_put he with heq | hmem
  · obtain ⟨hpath, rfl⟩ := Prod.mk.inj heq
    have hname := (List.cons.inj (List.append_cancel_left hpath)).1
    exact .inl (by rw [hname])
  · exact .inr (mem_children.mpr (Keyed.mem_of_mem_erase hmem))

/-- A directory that could be loaded can be loaded after a write when all lines written can be
read. -/
theorem Wrote.loads_iff (hname : collection ≠ "") (hloads : Loads files dir) :
    Loads files' dir ↔ ∀ d ∈ docs, ReadableLine d := by
  have hchecked := checkPath_dir h.checked
  have hlines : (∃ docs', readEntry (Path.text (dir ++ [fileName collection]))
      (.file (.text (textOf docs))) = .ok docs') ↔ ∀ d ∈ docs, ReadableLine d := by
    simp only [← rereadDocument_isSome_iff]
    exact exists_documentsOf_textOf _ docs
  rw [CollectionFile.loads_iff hchecked] at hloads ⊢
  rw [← hlines]
  constructor
  · intro hall
    exact hall _ h.mem_children_self (by rw [collectionOf?_fileName hname]; rfl)
  · intro hread e he hsome
    rcases h.mem_children_cases he with rfl | he
    · exact hread
    · exact hloads e he hsome

end Wrote
end CollectionFile

namespace Engine

/-! ## Another store on the same directory -/

/-- A store that has not been used. -/
def fresh (files : FileTree) (workingDirectory : Path) (ids : Nat → ObjectId) : Engine :=
  ⟨files, workingDirectory, .empty ids, []⟩

/-- Whether a connection string leads to a directory in which nothing has to be made for it. -/
def LeadsTo (uri : String) (dir : Path) (g : Engine) : Prop :=
  ∃ text, Address.parse uri = .ok (.directory text) ∧
    g.files.makeDirectories g.workingDirectory text = ⟨g.files, .ok dir⟩

/-- Whether a store that has not been used can connect to a database. -/
def CanOpen (uri : String) (g : Engine) : Prop :=
  ∀ ids, ∃ n, ((fresh g.files g.workingDirectory ids).connect uri).1 = .ok n

theorem canOpen_iff {uri : String} {dir : Path} {g : Engine} (h : g.LeadsTo uri dir) :
    g.CanOpen uri ↔ CollectionFile.Loads g.files dir := by
  obtain ⟨text, haddress, hmade⟩ := h
  unfold CanOpen CollectionFile.Loads connect fresh
  rw [haddress]
  dsimp only
  rw [hmade]
  dsimp only [Store.empty]
  rw [Keyed.get?_nil]
  dsimp only
  cases (CollectionFile.loadDirectory g.files dir).result with
  | error e => simp
  | ok collections => simp [openConnection]

/-- After a write the connection string leads to the same directory. -/
theorem LeadsTo.of_wrote {uri collection : String} {dir dir' : Path} {docs : List Document}
    {g g' : Engine} (h : g.LeadsTo uri dir)
    (hwrote : CollectionFile.Wrote g.files g'.files dir' collection docs)
    (hworking : g'.workingDirectory = g.workingDirectory) : g'.LeadsTo uri dir := by
  obtain ⟨text, haddress, hmade⟩ := h
  refine ⟨text, haddress, ?_⟩
  rw [hworking]
  exact FileTree.makeDirectories_kept hmade hwrote.keeps

theorem canOpen_iff_of_wrote {uri collection : String} {dir : Path} {docs : List Document}
    {g g' : Engine} (hleads : g.LeadsTo uri dir) (hloads : CollectionFile.Loads g.files dir)
    (hwrote : CollectionFile.Wrote g.files g'.files dir collection docs)
    (hworking : g'.workingDirectory = g.workingDirectory) (hname : collection ≠ "") :
    g'.CanOpen uri ↔ ∀ d ∈ docs, CollectionFile.ReadableLine d := by
  rw [canOpen_iff (hleads.of_wrote hwrote hworking)]
  exact hwrote.loads_iff hname hloads

/-- Whether a request changes the collection. -/
def Request.IsChange : Request → Prop
  | .find _ => False
  | _ => True

/-- A change that succeeds in a database kept in a directory has written the documents that the
collection now has. -/
theorem perform_wrote {h : Handle} {request : Request} {report : Report} {database : String}
    {dir : Path} {g g' : Engine} (hchange : Request.IsChange request)
    (hopen : g.databaseOf h = .ok database) (hdir : g.store.directoryOf database = some dir)
    (hok : g.perform h request = (.ok report, g')) :
    CollectionFile.Wrote g.files g'.files dir h.collection
      (g'.store.documents database h.collection) ∧ g'.workingDirectory = g.workingDirectory := by
  have hend := g.performed h request
  rw [hok] at hend
  cases hend with
  | found hopen' hr hout hsame hfiles =>
    rw [hr] at hchange
    exact absurd hchange id
  | saved hopen' hr hout hsave hreplaced =>
    cases hopen.symm.trans hopen'
    unfold save at hsave
    rw [hdir] at hsave
    rw [hreplaced.leaves.here]
    exact ⟨CollectionFile.wrote_of_write hsave, hreplaced.workingDirectory⟩

/-- After a change that succeeds, another store can open the directory exactly if every document of
the changed collection has a line that can be read. The directory is one that could be loaded
before the change, and nobody else has touched it. -/
theorem canOpen_iff_readable {h : Handle} {request : Request} {report : Report}
    {database uri : String} {dir : Path} {g g' : Engine} (hleads : g.LeadsTo uri dir)
    (hloads : CollectionFile.Loads g.files dir) (hopen : g.databaseOf h = .ok database)
    (hdir : g.store.directoryOf database = some dir)
    (hname : validCollectionName h.collection = true) (hchange : Request.IsChange request)
    (hok : g.perform h request = (.ok report, g')) :
    g'.CanOpen uri ↔
      ∀ d ∈ g'.store.documents database h.collection, CollectionFile.ReadableLine d := by
  obtain ⟨hwrote, hworking⟩ := perform_wrote hchange hopen hdir hok
  exact canOpen_iff_of_wrote hleads hloads hwrote hworking (CollectionFile.ne_empty_of_valid hname)

/-- A tree with an empty directory, and a store that has connected to it. -/
def emptyData : FileTree := ⟨[(["data"], .directory)]⟩

def connected : Engine :=
  ⟨emptyData, [], ⟨[("file:///data", ⟨some ["data"], []⟩)], [⟨"file:///data", false⟩], 1, 0,
    .numbered 0⟩, [⟨.debug, Log.storeTarget, "connection #0 opened (file:///data)"⟩]⟩

theorem parse_data : Address.parse "file:///data" = .ok (.directory "/data") := by decide

theorem makeDirectories_data :
    emptyData.makeDirectories [] "/data" = ⟨emptyData, .ok ["data"]⟩ := by rfl

theorem directoryKey_data : directoryKey ["data"] = "file:///data" := by decide

theorem connect_data :
    (fresh emptyData [] (.numbered 0)).connect "file:///data" = (.ok 0, connected) := by
  have hload : CollectionFile.loadDirectory emptyData ["data"] = ⟨[], .ok []⟩ := by rfl
  unfold connect
  rw [parse_data]
  dsimp only [fresh]
  rw [makeDirectories_data]
  dsimp only
  rw [directoryKey_data, hload]
  rfl

/-- A document with a date, and the state after it was inserted. -/
def due (date : Value) : Document := [("_id", .int32 1), ("due", .document [("$date", date)])]

def withDue (date : Value) : Engine := (connected.perform ⟨0, "items"⟩ (.insert (due date))).2

theorem leadsTo_connected : connected.LeadsTo "file:///data" ["data"] :=
  ⟨"/data", parse_data, makeDirectories_data⟩

theorem loads_connected : CollectionFile.Loads connected.files ["data"] := ⟨[], by rfl⟩

theorem databaseOf_connected : connected.databaseOf ⟨0, "items"⟩ = .ok "file:///data" := by rfl

theorem directoryOf_connected :
    connected.store.directoryOf "file:///data" = some (["data"] : Path) := by rfl

theorem perform_connected (date : Value) : connected.perform ⟨0, "items"⟩ (.insert (due date)) =
    (.ok (.inserted (.int32 1)), withDue date) := by
  rfl

theorem documents_withDue (date : Value) :
    (withDue date).store.documents "file:///data" "items" = [due date] := by
  rfl

/-- Such a document depends on its date alone. -/
theorem readableFields_due (date : Value) :
    Value.ReadableFields (due date) ↔ Value.Accepted "$date" date := by
  have hid : Value.IsField "_id" := Value.isField_of_head? (by decide)
  have hdue : Value.IsField "due" := Value.isField_of_head? (by decide)
  unfold due
  rw [Value.ReadableFields, if_neg hid.code, if_neg hid.scope, if_neg hid.reserved,
    Value.ReadableFields, if_neg hdue.code, if_neg hdue.scope, if_neg hdue.reserved,
    Value.ReadableFields, Value.Readable, Value.ReadableFields, if_neg (by decide),
    if_neg (by decide), if_pos (by decide)]
  simp [Value.Readable]

/-- A date in milliseconds is written, and read again. -/
theorem canOpen_withDue : (withDue (.int32 5)).CanOpen "file:///data" := by
  have hchange : Request.IsChange (.insert (due (.int32 5))) := trivial
  rw [canOpen_iff_readable leadsTo_connected loads_connected databaseOf_connected
    directoryOf_connected (by decide) hchange (perform_connected _), documents_withDue]
  intro d hd
  rw [List.mem_singleton.mp hd]
  refine ⟨by decide, ?_, (readableFields_due _).mpr ⟨.dateTime 5, by rfl⟩⟩
  intro k hk
  have hfirst : ∀ k ∈ Keyed.keys (due (.int32 5)), k.toList.head? ≠ some '$' := by decide
  exact Value.isField_of_head? (hfirst k hk)

/-- A date that is none is written but not read, so the directory cannot be opened any more. -/
theorem not_canOpen_withDue : ¬ ∀ {h : Handle} {request : Request} {report : Report}
    {database uri : String} {dir : Path} {g g' : Engine}, g.LeadsTo uri dir →
    CollectionFile.Loads g.files dir → g.databaseOf h = .ok database →
    g.store.directoryOf database = some dir → validCollectionName h.collection = true →
    Request.IsChange request → g.perform h request = (.ok report, g') → g'.CanOpen uri := by
  intro hall
  have hok := perform_connected (.string "tomorrow")
  have hchange : Request.IsChange (.insert (due (.string "tomorrow"))) := trivial
  have hopen := hall leadsTo_connected loads_connected databaseOf_connected directoryOf_connected
    (by decide) hchange hok
  obtain ⟨hwrote, hworking⟩ := perform_wrote hchange databaseOf_connected directoryOf_connected hok
  rw [canOpen_iff_of_wrote leadsTo_connected loads_connected hwrote hworking (by decide),
    documents_withDue] at hopen
  obtain ⟨r, hr⟩ := (readableFields_due _).mp (hopen _ List.mem_cons_self).values
  have hrefused : ExtendedJson.scalar? "$date" (Value.toJson (.string "tomorrow")) = some none := by
    rfl
  rw [hrefused] at hr
  cases hr

end Engine
end DocQuery
