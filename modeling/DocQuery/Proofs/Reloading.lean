import DocQuery.Proofs.CollectionDirectory

/-
  A directory reloaded. Collections of reloadable documents, written one after the other into a
  directory that held no others, are loaded again as they were: each collection under its name, each
  with its documents in order. Temporary files that were left behind do not count.
-/

namespace DocQuery.CollectionFile

/-! ## Paths -/

theorem byteSize_le_append (dir : Path) (name : FileName) :
    dir.byteSize ≤ Path.byteSize (dir ++ [name]) := by
  induction dir with
  | nil => simp [Path.byteSize]
  | cons first rest ih =>
    cases rest with
    | nil => simp [Path.byteSize]
    | cons second rest =>
      simp only [Path.byteSize, List.cons_append, List.isEmpty_cons, Bool.false_eq_true, if_false,
        List.foldr_cons] at ih ⊢
      omega

/-- The path of a directory can be used when that of an entry can. -/
theorem checkPath_dir {dir : Path} {name : FileName}
    (h : FileTree.checkPath (dir ++ [name]) = .ok ()) : FileTree.checkPath dir = .ok () := by
  unfold FileTree.checkPath at h ⊢
  split at h
  · cases h
  · next hnul =>
    rw [List.any_append, Bool.or_eq_true, not_or] at hnul
    rw [if_neg hnul.1]
    split at h
    · cases h
    · next hlong =>
      rw [if_neg (by have := byteSize_le_append dir name; omega)]

/-! ## Writing collections -/

/-- Writes collections one after the other, up to the first failure. -/
def writeAll (dir : Path) : FileTree → List (String × List Document) → Written
  | files, [] => ⟨files, .ok ()⟩
  | files, (collection, docs) :: rest =>
    match write files dir collection docs with
    | ⟨files, .error e⟩ => ⟨files, .error e⟩
    | ⟨files, .ok ()⟩ => writeAll dir files rest

/-- What a tree is after collections have been written: their files hold them, and the files of
other collections are as they were. -/
structure WroteAll (files files' : FileTree) (dir : Path)
    (collections : List (String × List Document)) : Prop where
  here : ∀ e ∈ collections,
    files'.get? (dir ++ [fileName e.1]) = some (.file (.text (textOf e.2)))
  elsewhere : ∀ collection ∉ Keyed.keys collections,
    files'.get? (dir ++ [fileName collection]) = files.get? (dir ++ [fileName collection])
  nodup : (Keyed.keys files.entries).Nodup → (Keyed.keys files'.entries).Nodup
  checked : collections ≠ [] → FileTree.checkPath dir = .ok ()

theorem Wrote.get?_fileName {files files' : FileTree} {dir : Path} {collection other : String}
    {docs : List Document} (h : Wrote files files' dir collection docs) (hne : other ≠ collection) :
    files'.get? (dir ++ [fileName other]) = files.get? (dir ++ [fileName other]) := by
  refine h.get?_other ?_ (append_temporaryName_ne dir dir collection other)
  intro he
  have hlast := List.append_cancel_left he
  exact hne (fileName_inj.mp (List.cons.inj hlast).1)

theorem wroteAll_of_writeAll {dir : Path} {files files' : FileTree}
    {collections : List (String × List Document)}
    (hnames : (Keyed.keys collections).Nodup)
    (h : writeAll dir files collections = ⟨files', .ok ()⟩) :
    WroteAll files files' dir collections := by
  induction collections generalizing files with
  | nil =>
    cases h
    exact ⟨fun e he => absurd he List.not_mem_nil, fun _ _ => rfl, id, fun hne => absurd rfl hne⟩
  | cons e rest ih =>
    obtain ⟨collection, docs⟩ := e
    obtain ⟨hnew, hnames⟩ := List.nodup_cons.mp hnames
    unfold writeAll at h
    split at h
    · cases h
    · next files₁ hwrite =>
      have hwrote := wrote_of_write hwrite
      have hrest := ih hnames h
      refine ⟨?_, ?_, ?_, ?_⟩
      · intro e he
        rcases List.mem_cons.mp he with rfl | he
        · rw [hrest.elsewhere _ hnew]
          exact hwrote.get?_self
        · exact hrest.here e he
      · intro other hother
        simp only [Keyed.keys, List.map_cons, List.mem_cons, not_or] at hother
        rw [hrest.elsewhere other hother.2, hwrote.get?_fileName hother.1]
      · intro hkeys
        exact hrest.nodup (hwrote.nodup hkeys)
      · intro hne
        exact checkPath_dir hwrote.checked

/-! ## Loading them again -/

theorem ne_empty_of_valid {name : String} (h : Engine.validCollectionName name = true) :
    name ≠ "" := by
  rintro rfl
  exact absurd h (by decide)

/-- A document that comes back from its line: its kinds of values are told apart by the format, no
name is a mark of the format, and its text is not nested too deep. -/
def Reloads (d : Document) : Prop :=
  Value.Reloadable (.document d) ∧ (Value.toJson (.document d)).depth ≤ Json.maxDepth

theorem rereadDocument_of_reloads {d : Document} (h : Reloads d) : rereadDocument d = some d :=
  Value.documentOfText?_of_reloadable h.1 h.2

/-- With all collections written, the entries of a directory that are named like collection files
are theirs. -/
theorem WroteAll.mem_children {files files' : FileTree} {dir : Path}
    {collections : List (String × List Document)} (h : WroteAll files files' dir collections)
    (hkeys : (Keyed.keys files.entries).Nodup) (hnames : (Keyed.keys collections).Nodup)
    (hothers : ∀ name collection, (files.get? (dir ++ [name])).isSome = true →
      collectionOf? name = some collection → collection ∈ Keyed.keys collections)
    {name : FileName} {collection : String} (hname : collectionOf? name = some collection)
    (entry : Entry) :
    (name, entry) ∈ files'.children dir ↔ ∃ docs, Keyed.get? collections collection = some docs ∧
      entry = .file (.text (textOf docs)) := by
  obtain ⟨rfl, -⟩ := collectionOf?_eq_some.mp hname
  rw [CollectionFile.mem_children, Keyed.mem_iff_get? (h.nodup hkeys),
    ← FileTree.get?_append_single]
  have hfile : ∀ docs, Keyed.get? collections collection = some docs →
      files'.get? (dir ++ [fileName collection]) = some (.file (.text (textOf docs))) := by
    intro docs hdocs
    exact h.here _ ((Keyed.mem_iff_get? hnames collection docs).mpr hdocs)
  constructor
  · intro hentry
    have hmem : collection ∈ Keyed.keys collections := by
      by_contra hnot
      rw [h.elsewhere collection hnot] at hentry
      exact hnot (hothers _ _ (by rw [hentry]; rfl) hname)
    obtain ⟨docs, hdocs⟩ := Option.isSome_iff_exists.mp ((Keyed.mem_keys_iff _ _).mp hmem)
    rw [hfile docs hdocs] at hentry
    exact ⟨docs, hdocs, (Option.some.inj hentry).symm⟩
  · rintro ⟨docs, hdocs, rfl⟩
    exact hfile docs hdocs

/-- A directory is loaded again as what was written to it: exactly these collections, each with
exactly its documents. The tree lists each path once; the directory may have held other entries
before, such as temporary files, but no file of another collection. With no collection to write,
the directory's own path has to be one that can be read. -/
theorem loadDirectory_writeAll {files files' : FileTree} {dir : Path}
    {collections : List (String × List Document)}
    (hkeys : (Keyed.keys files.entries).Nodup)
    (hdir : collections = [] → FileTree.checkPath dir = .ok ())
    (hothers : ∀ name collection, (files.get? (dir ++ [name])).isSome = true →
      collectionOf? name = some collection → collection ∈ Keyed.keys collections)
    (hnames : (Keyed.keys collections).Nodup)
    (hvalid : ∀ name ∈ Keyed.keys collections, Engine.validCollectionName name = true)
    (hdocs : ∀ e ∈ collections, ∀ d ∈ e.2, Reloads d)
    (hwrite : writeAll dir files collections = ⟨files', .ok ()⟩) :
    ∃ loaded, (loadDirectory files' dir).result = .ok loaded ∧ loaded.Perm collections := by
  have hwrote := wroteAll_of_writeAll hnames hwrite
  have hmem : ∀ {name : FileName} {collection : String}, collectionOf? name = some collection →
      ∀ entry, (name, entry) ∈ files'.children dir ↔
        ∃ docs, Keyed.get? collections collection = some docs ∧
          entry = .file (.text (textOf docs)) := by
    intro name collection hname entry
    exact hwrote.mem_children hkeys hnames hothers hname entry
  have hchecked : FileTree.checkPath dir = .ok () := by
    by_cases hempty : collections = []
    · exact hdir hempty
    · exact hwrote.checked hempty
  let documents := fun collection => (Keyed.get? collections collection).getD []
  have hread : ∀ e ∈ files'.children dir, ∀ collection, collectionOf? e.1 = some collection →
      readEntry (Path.text (dir ++ [e.1])) e.2 = .ok (documents collection) := by
    intro e he collection hname
    obtain ⟨docs, hd, hfile⟩ := (hmem hname e.2).mp he
    have hcollection := (Keyed.mem_iff_get? hnames _ _).mpr hd
    have hreloads : ∀ d ∈ docs, rereadDocument d = some d := by
      intro d hdoc
      exact rereadDocument_of_reloads (hdocs _ hcollection d hdoc)
    dsimp only [documents]
    rw [hfile, hd]
    exact documentsOf_textOf_eq_ok hreloads
  refine ⟨collectionsAmong documents (files'.children dir), ?_, ?_⟩
  · rw [loadDirectory, hchecked]
    exact loadEntries_eq_ok documents hread
  -- both lists hold every name once, so it is enough that they have the same members
  have hloaded := nodup_collectionsAmong documents (nodup_children (hwrote.nodup hkeys) dir)
  rw [List.perm_ext_iff_of_nodup hloaded.of_map hnames.of_map]
  rintro ⟨collection, docs⟩
  unfold collectionsAmong
  rw [List.mem_filterMap, Keyed.mem_iff_get? hnames]
  constructor
  · rintro ⟨e, he, hsome⟩
    obtain ⟨collection', hname, hpair⟩ := Option.map_eq_some_iff.mp hsome
    cases hpair
    obtain ⟨docs, hd, -⟩ := (hmem hname e.2).mp he
    dsimp only [documents]
    rw [hd]
    rfl
  · intro hd
    have hkey : collection ∈ Keyed.keys collections := by
      rw [Keyed.mem_keys_iff, hd]
      rfl
    have hname := collectionOf?_fileName (ne_empty_of_valid (hvalid _ hkey))
    refine ⟨(fileName collection, .file (.text (textOf docs))), (hmem hname _).mpr ⟨docs, hd, rfl⟩,
      ?_⟩
    dsimp only [documents]
    rw [hname, Option.map_some, hd]
    rfl

/-- A directory in which a temporary file was left behind. -/
def leftover : FileTree :=
  ⟨[(["data"], .directory), (["data", "items.ndjson.tmp"], .file (.text "\x7b"))]⟩

/-- Two collections, one with a name like a temporary file. -/
def stock : List (String × List Document) :=
  [("items", [[("_id", .int32 7), ("note", .string "two\nlines"), ("at", .dateTime (-1))]]),
    ("items.ndjson.tmp", [[("_id", .binary 4 [255]), ("sizes", .array [.null, .bool true])], []])]

theorem loadDirectory_writeAll_stock :
    ∃ loaded, (loadDirectory (writeAll ["data"] leftover stock).files ["data"]).result = .ok loaded ∧
      loaded.Perm stock := by
  have hothers : ∀ name collection, (leftover.get? ((["data"] : Path) ++ [name])).isSome = true →
      collectionOf? name = some collection → collection ∈ Keyed.keys stock := by
    intro name collection hsome hname
    have hnone : collectionOf? (.text "items.ndjson.tmp") = none := by decide
    by_cases htmp : name = .text "items.ndjson.tmp"
    · rw [htmp, hnone] at hname
      cases hname
    · simp [leftover, FileTree.get?, Keyed.get?, Ne.symm htmp] at hsome
  have hdocs : ∀ e ∈ stock, ∀ d ∈ e.2, Reloads d := by
    simp only [stock, List.forall_mem_cons]
    have hseven : (Value.int32 7).Reloadable := by show (0 : Int) ≤ (7 : Int32).toInt; decide
    have hbytes : (Value.binary 4 [255]).Reloadable := by show (4 : UInt8) ≠ 0; decide
    refine ⟨⟨⟨?_, by decide⟩, by simp⟩, ⟨⟨?_, by decide⟩, ⟨?_, by decide⟩, by simp⟩, by simp⟩
    · exact ⟨by decide, by decide, hseven, by decide, trivial, by decide, trivial, trivial⟩
    · exact ⟨by decide, by decide, hbytes, by decide, ⟨trivial, trivial, trivial⟩, trivial⟩
    · exact ⟨by decide, trivial⟩
  have hwrite : writeAll ["data"] leftover stock =
      ⟨(writeAll ["data"] leftover stock).files, .ok ()⟩ := by
    rfl
  exact loadDirectory_writeAll (by decide) (fun h => by cases h) hothers (by decide) (by decide)
    hdocs hwrite

end DocQuery.CollectionFile
