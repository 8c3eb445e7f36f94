import DocQuery.Proofs.Actions
import DocQuery.Proofs.ReopenedQueries

/-
  Memory and files in step. A store keeps each collection of a directory twice, and a change moves
  both copies or none: `write_through` says so of every action in every course of a store, whichever
  calls fail, and whether or not the file system fails on the way of its own accord. All that is
  assumed of it is that a write that fails touches no file but the temporary one. Others may do what
  they want, but they leave the collection files of the directories in use alone.
-/

namespace DocQuery

/-! ## Files of a tree -/

namespace FileTree

/-- What a file holds, if there is one. -/
def contents? (t : FileTree) (p : Path) : Option Contents :=
  match t.get? p with
  | some (.file contents) => some contents
  | _ => none

theorem contents?_congr {t t' : FileTree} {p : Path} (h : t'.get? p = t.get? p) :
    t'.contents? p = t.contents? p := by
  unfold contents?
  rw [h]

/-- A directory takes the place of no file. -/
theorem contents?_makeDirectory {t t' : FileTree} {dir : Path} {name : FileName}
    (h : t.makeDirectory dir name = .ok t') (p : Path) : t'.contents? p = t.contents? p := by
  obtain ⟨hnone, rfl⟩ := makeDirectory_eq_ok h
  by_cases hp : p = dir ++ [name]
  · subst hp
    unfold contents?
    rw [hnone, get?_append_single]
    dsimp only [insert]
    rw [Keyed.get?_put_self]
  · refine contents?_congr ?_
    unfold get?
    dsimp only [insert]
    rw [Keyed.get?_put_other _ _ hp]

theorem contents?_makeAlong (t : FileTree) (links : Nat) (here : Path) (names : List FileName)
    (p : Path) : (t.makeAlong links here names).files.contents? p = t.contents? p := by
  induction names generalizing t links here with
  | nil => rfl
  | cons name rest ih =>
    unfold makeAlong
    split
    · rfl
    · split
      · split
        · rfl
        · exact ih _ _ _
      · exact ih _ _ _
      · split
        · rfl
        · next hmake => exact (ih _ _ _).trans (contents?_makeDirectory hmake p)

/-- Making directories leaves all files, also if it fails on the way. -/
theorem contents?_makeDirectories (t : FileTree) (workingDirectory : Path) (text : String)
    (p : Path) : (t.makeDirectories workingDirectory text).files.contents? p = t.contents? p := by
  have halong := t.contents?_makeAlong maxLinks (startOf workingDirectory text)
    (namesToMake text) p
  unfold makeDirectories
  dsimp only
  split
  · rfl
  · split
    · next hmade => rwa [hmade] at halong
    · next hmade => rwa [hmade] at halong

end FileTree

namespace CollectionFile

/-! ## Files of collections -/

theorem fileName_path_inj {dir dir' : Path} {collection collection' : String} :
    dir ++ [fileName collection] = dir' ++ [fileName collection'] ↔
      dir = dir' ∧ collection = collection' := by
  rw [List.append_singleton_inj, fileName_inj]

/-- A write that fails has touched at most the temporary file. -/
theorem get?_write_error {files files' : FileTree} {dir p : Path} {collection : String}
    {docs : List Document} {e : FileError}
    (h : write files dir collection docs = ⟨files', .error e⟩)
    (hp : p ≠ dir ++ [temporaryName collection]) : files'.get? p = files.get? p := by
  unfold write at h
  split at h
  · cases h
    rfl
  · next staged hstaged =>
    split at h
    · cases h
      obtain ⟨-, -, rfl⟩ := FileTree.write_eq_ok hstaged
      unfold FileTree.get? FileTree.insert
      rw [Keyed.get?_put_other _ _ hp]
    · cases h

/-- A file with one line for each of some documents, in their order, and nothing else: behind the
last line there is only the end of the file. -/
def HoldsLines (contents : Option Contents) (docs : List Document) : Prop :=
  ∃ text, contents = some (.text text) ∧
    Text.split '\n' text.toList = docs.map lineOf ++ [[]]

theorem split_textOf (docs : List Document) :
    Text.split '\n' (textOf docs).toList = docs.map lineOf ++ [[]] := by
  induction docs with
  | nil => rfl
  | cons d docs ih =>
    rw [toList_textOf, Text.split_append (newline_not_mem_lineOf d), ih]
    rfl

/-- A file from which some documents are read; without one there are none. -/
def HoldsRead (file : String) (docs : List Document) : Option Contents → Prop
  | none => docs = []
  | some contents => readEntry file (.file contents) = .ok docs

theorem holdsRead_of_documentsIn {files : FileTree} {dir : Path} {collection : String}
    {docs : List Document} (h : documentsIn files dir collection = .ok docs) :
    HoldsRead (Path.text (dir ++ [fileName collection])) docs
      (files.contents? (dir ++ [fileName collection])) := by
  unfold documentsIn at h
  unfold FileTree.contents?
  cases hentry : files.get? (dir ++ [fileName collection]) with
  | none =>
    rw [hentry] at h
    exact (Except.ok.inj h).symm
  | some entry =>
    rw [hentry] at h
    cases entry with
    | directory | link => cases h
    | file contents => exact h

end CollectionFile

namespace Engine

open CollectionFile (fileName temporaryName HoldsLines HoldsRead)

/-! ## What happens to a store -/

/-- Whether an action changes a collection. -/
def Action.IsChange : Action → Prop
  | .request _ r => Request.IsChange r
  | _ => False

/-- The file of a collection. -/
def fileOf (g : Engine) (dir : Path) (collection : String) : Option Contents :=
  g.files.contents? (dir ++ [fileName collection])

/-- The temporary file that an action may write. -/
def temporary? (g : Engine) : Action → Option Path
  | .request h _ =>
    match g.databaseOf h with
    | .error _ => none
    | .ok database =>
      (g.store.directoryOf database).map fun dir => dir ++ [temporaryName h.collection]
  | _ => none

/-- One action, how it ends, and what the store is then. -/
inductive Ends (g : Engine) : Action → Except StoreError Answer → Engine → Prop where
  | done (a : Action) : Ends g a (g.act a).1 (g.act a).2
  /-- The file system fails of its own accord: the action fails as it would on some other tree, and
  what is left behind differs from the tree before in directories and in the temporary file only. -/
  | disturbed {a : Action} {e : StoreError} (during left : FileTree)
      (hfails : (act a { g with files := during }).1 = .error e)
      (hleft : ∀ p, g.temporary? a ≠ some p → left.contents? p = g.files.contents? p) :
      Ends g a (.error e) { (act a { g with files := during }).2 with files := left }

/-- The states of a store that is worked on while others leave the collection files of its
directories alone. -/
inductive Course (g₀ : Engine) : Engine → Prop where
  | start : Course g₀ g₀
  | action {g g' : Engine} {a : Action} {outcome : Except StoreError Answer} (h : Course g₀ g)
      (hends : Ends g a outcome g') : Course g₀ g'
  | others {g : Engine} (files : FileTree) (h : Course g₀ g)
      (hkept : ∀ database dir collection, g.store.directoryOf database = some dir →
        files.contents? (dir ++ [fileName collection]) = g.fileOf dir collection) :
      Course g₀ { g with files := files }

/-! ## What an action can do -/

/-- Whether the files of all collections are the same, in all directories. -/
def SameFiles (g g' : Engine) : Prop :=
  ∀ dir collection, g'.fileOf dir collection = g.fileOf dir collection

/-- The databases are as before, or one is there that was not, empty or read from a directory. -/
inductive Mounted (g g' : Engine) : Prop where
  | same (hsame : g'.store.databases = g.store.databases)
  | named (name : String)
      (hsame : g'.store.databases = (g.store.ensureDatabase name).databases)
  | loaded {dir : Path} {collections : Keyed String (List Document)}
      (hnew : Keyed.get? g.store.databases (directoryKey dir) = none)
      (hload : (CollectionFile.loadDirectory g'.files dir).result = .ok collections)
      (hput : g'.store.databases =
        Keyed.put g.store.databases (directoryKey dir) ⟨some dir, collections⟩)

/-- All that an action can do: leave all files and at most mount a database, or change one
collection in memory and on disk. -/
inductive Effect (g : Engine) (a : Action) (outcome : Except StoreError Answer) (g' : Engine) :
    Prop where
  | quiet (hquiet : (∃ e, outcome = .error e) ∨ ¬ a.IsChange) (hfiles : SameFiles g g')
      (hmounted : Mounted g g')
  | changed {h : Handle} {r : Request} {answer : Answer} {database : String} {docs : List Document}
      (ha : a = .request h r) (hr : Request.IsChange r) (hout : outcome = .ok answer)
      (hopen : g.databaseOf h = .ok database)
      (hsave : g.save database h.collection docs = ⟨g'.files, .ok ()⟩)
      (hreplaced : Replaced g g' database h.collection docs)

theorem contents?_connect (uri : String) (g : Engine) (p : Path) :
    (g.connect uri).2.files.contents? p = g.files.contents? p := by
  unfold connect
  split
  · rfl
  · rfl
  · next text _ =>
    have hmake := g.files.contents?_makeDirectories g.workingDirectory text p
    split
    · next hmade => rwa [hmade] at hmake
    · next hmade =>
      rw [hmade] at hmake
      dsimp only
      split
      · exact hmake
      · split
        · exact hmake
        · exact hmake

theorem mounted_connect (g : Engine) (uri : String) : Mounted g (g.connect uri).2 := by
  unfold connect
  split
  · exact .same rfl
  · next name _ => exact .named name rfl
  · split
    · exact .same rfl
    · dsimp only
      split
      · exact .same rfl
      · next hnew =>
        split
        · exact .same rfl
        · next collections hload => exact .loaded hnew hload rfl

theorem sameFiles_of_files {g g' : Engine} (h : g'.files = g.files) : SameFiles g g' := by
  intro dir collection
  unfold fileOf
  rw [h]

theorem effect_request (g : Engine) (h : Handle) (r : Request) :
    Effect g (.request h r) (g.act (.request h r)).1 (g.act (.request h r)).2 := by
  have hend := g.performed h r
  show Effect g _ ((g.perform h r).1.map .report) (g.perform h r).2
  generalize (g.perform h r).1 = outcome at hend ⊢
  generalize (g.perform h r).2 = g' at hend ⊢
  cases hend with
  | closed => exact .quiet (.inl ⟨_, rfl⟩) (fun _ _ => rfl) (.same rfl)
  | refused _ _ hsame hfiles =>
    exact .quiet (.inl ⟨_, rfl⟩) (sameFiles_of_files hfiles) (.same hsame.databases)
  | found _ hr _ hsame hfiles =>
    refine .quiet (.inr ?_) (sameFiles_of_files hfiles) (.same hsame.databases)
    rw [hr]
    exact id
  | unsaved _ _ _ hsave hsame =>
    refine .quiet (.inl ⟨_, rfl⟩) ?_ (.same hsame.databases)
    unfold save at hsave
    split at hsave
    · cases congrArg CollectionFile.Written.result hsave
    · intro dir collection
      exact FileTree.contents?_congr (CollectionFile.get?_write_error hsave
        (CollectionFile.append_temporaryName_ne _ _ _ _))
  | saved hopen hr _ hsave hreplaced =>
    refine .changed rfl ?_ rfl hopen hsave hreplaced
    cases r with
    | find filter => exact absurd rfl (hr filter)
    | remove | update | insert => exact trivial

/-- What an action does when the file system does what is asked of it. -/
theorem effect_act (g : Engine) (a : Action) : Effect g a (g.act a).1 (g.act a).2 := by
  cases a with
  | connect uri =>
    exact .quiet (.inr id) (fun _ _ => g.contents?_connect uri _) (g.mounted_connect uri)
  | collection conn name =>
    show Effect g _ _ (g.collection conn name).2
    rcases g.collection_cases conn name with ⟨-, hend⟩ | ⟨-, -, hend⟩ | ⟨-, -, hend⟩
    all_goals rw [hend]
    all_goals exact .quiet (.inr id) (fun _ _ => rfl) (.same rfl)
  | request h r => exact g.effect_request h r
  | close conn =>
    refine .quiet (.inr id) (sameFiles_of_files ?_) (.same (g.close_databases conn))
    show (g.close conn).2.files = g.files
    unfold close
    split
    · rfl
    · rfl

/-- Every action does one of these things, also when the file system fails. -/
theorem Ends.effect {g g' : Engine} {a : Action} {outcome : Except StoreError Answer}
    (h : Ends g a outcome g') : Effect g a outcome g' := by
  cases h with
  | done => exact g.effect_act a
  | disturbed during left hfails hleft =>
    refine .quiet (.inl ⟨_, rfl⟩) ?_ (.same (fails_and_unchanged hfails).2.databases)
    intro dir collection
    -- what may be left behind has another name than every file of a collection
    refine hleft _ ?_
    intro htemporary
    unfold temporary? at htemporary
    split at htemporary
    · split at htemporary
      · cases htemporary
      · obtain ⟨dir', -, hpath⟩ := Option.map_eq_some_iff.mp htemporary
        exact CollectionFile.append_temporaryName_ne _ _ _ _ hpath.symm
    · cases htemporary

/-! ## Both copies of a collection -/

section Saved

variable {g g' : Engine} {database collection : String} {docs : List Document}
  (hsave : g.save database collection docs = ⟨g'.files, .ok ()⟩)
include hsave

theorem holdsLines_of_save {dir : Path} (hdir : g.store.directoryOf database = some dir) :
    HoldsLines (g'.fileOf dir collection) docs := by
  unfold save at hsave
  rw [hdir] at hsave
  refine ⟨CollectionFile.textOf docs, ?_, CollectionFile.split_textOf docs⟩
  unfold fileOf FileTree.contents?
  rw [(CollectionFile.wrote_of_write hsave).get?_self]

/-- Only the file of the collection that was written differs. -/
theorem fileOf_of_save {dir : Path} {other : String}
    (hother : g.store.directoryOf database = some dir → other ≠ collection) :
    g'.fileOf dir other = g.fileOf dir other := by
  unfold save at hsave
  split at hsave
  · exact sameFiles_of_files (congrArg CollectionFile.Written.files hsave).symm dir other
  · next dir' hdir' =>
    refine FileTree.contents?_congr ((CollectionFile.wrote_of_write hsave).get?_other ?_ ?_)
    · intro hpath
      obtain ⟨rfl, rfl⟩ := CollectionFile.fileName_path_inj.mp hpath
      exact hother hdir' rfl
    · exact CollectionFile.append_temporaryName_ne _ _ _ _

end Saved

/-- A collection of a database in a directory, and its file: the file holds the documents line by
line, or it still is what they were read from. -/
def Coherent (g : Engine) (database : String) (dir : Path) (collection : String) : Prop :=
  HoldsLines (g.fileOf dir collection) (g.store.documents database collection) ∨
    HoldsRead (Path.text (dir ++ [fileName collection]))
      (g.store.documents database collection) (g.fileOf dir collection)

theorem Coherent.congr {g g' : Engine} {database collection : String} {dir : Path}
    (h : Coherent g database dir collection)
    (hdocs : g'.store.documents database collection = g.store.documents database collection)
    (hfile : g'.fileOf dir collection = g.fileOf dir collection) :
    Coherent g' database dir collection := by
  unfold Coherent
  rw [hdocs, hfile]
  exact h

/-- What holds throughout a course: each directory has one database, and memory and files agree. -/
structure InStep (g : Engine) : Prop where
  key : ∀ {database dir}, g.store.directoryOf database = some dir → database = directoryKey dir
  coherent : ∀ {database dir collection}, g.store.directoryOf database = some dir →
    collection ≠ "" → Coherent g database dir collection

theorem inStep_fresh (files : FileTree) (workingDirectory : Path) (ids : Nat → ObjectId) :
    InStep (fresh files workingDirectory ids) where
  key h := nomatch h
  coherent h := nomatch h

section Mounted

variable {g g' : Engine} (h : Mounted g g')
include h

/-- A database that was there stays as it is when another one is mounted. -/
theorem Mounted.get?_eq {database : String} {db : Database}
    (hthere : Keyed.get? g.store.databases database = some db) :
    Keyed.get? g'.store.databases database = some db := by
  have hother : ∀ {key}, Keyed.get? g.store.databases key = none → database ≠ key := by
    rintro key hnew rfl
    cases hthere.symm.trans hnew
  cases h with
  | same hsame => rw [hsame, hthere]
  | named name hsame =>
    rw [hsame]
    unfold Store.ensureDatabase
    split
    · exact hthere
    · next hnew => rw [Keyed.get?_put_other _ _ (hother hnew), hthere]
  | loaded hnew _ hput => rw [hput, Keyed.get?_put_other _ _ (hother hnew), hthere]

/-- A database in a directory was there before, or has just been read from its files. -/
theorem Mounted.directoryOf {database : String} {dir : Path}
    (hdir : g'.store.directoryOf database = some dir) :
    g.store.directoryOf database = some dir ∨
      (database = directoryKey dir ∧ ∀ collection, collection ≠ "" →
        Coherent g' database dir collection) := by
  cases h with
  | same hsame =>
    rw [Store.directoryOf_congr hsame] at hdir
    exact .inl hdir
  | named name hsame =>
    rw [Store.directoryOf_congr hsame, Store.directoryOf_ensureDatabase] at hdir
    exact .inl hdir
  | @loaded dir' collections hnew hload hput =>
    unfold Store.directoryOf at hdir
    rw [hput] at hdir
    by_cases hdatabase : database = directoryKey dir'
    · subst hdatabase
      rw [Keyed.get?_put_self] at hdir
      cases hdir
      refine .inr ⟨rfl, ?_⟩
      intro collection hname
      refine .inr (CollectionFile.holdsRead_of_documentsIn ?_)
      rw [CollectionFile.documentsIn_of_loadDirectory hload hname]
      unfold Store.documents
      rw [hput, Keyed.get?_put_self]
    · rw [Keyed.get?_put_other _ _ hdatabase] at hdir
      exact .inl hdir

end Mounted

section Effect

variable {g g' : Engine} {a : Action} {outcome : Except StoreError Answer}
  (h : Effect g a outcome g')
include h

theorem Effect.written {handle : Handle} {answer : Answer} {database : String} {dir : Path}
    {r : Request} (ha : a = .request handle r) (hr : Request.IsChange r)
    (hout : outcome = .ok answer) (hopen : g.databaseOf handle = .ok database)
    (hdir : g.store.directoryOf database = some dir) :
    HoldsLines (g'.fileOf dir handle.collection)
      (g'.store.documents database handle.collection) := by
  subst ha
  cases h with
  | quiet hquiet =>
    rcases hquiet with ⟨e, he⟩ | hnot
    · cases hout.symm.trans he
    · exact absurd hr hnot
  | changed ha _ _ hopen' hsave hreplaced =>
    cases ha
    cases hopen.symm.trans hopen'
    rw [hreplaced.leaves.here]
    exact holdsLines_of_save hsave hdir

theorem Effect.sameFiles (hquiet : (∃ e, outcome = .error e) ∨ ¬ a.IsChange) :
    SameFiles g g' := by
  cases h with
  | quiet _ hfiles => exact hfiles
  | changed ha hr hout =>
    subst ha
    rcases hquiet with ⟨e, he⟩ | hnot
    · cases hout.symm.trans he
    · exact absurd hr hnot

variable (hkey : ∀ {database dir}, g.store.directoryOf database = some dir →
  database = directoryKey dir)
include hkey

/-- The files of other collections stay. No other database is kept in the same directory, so it is
enough that the database or the name differs. -/
theorem Effect.fileOf_other {handle : Handle} {r : Request} {database database' : String}
    (ha : a = .request handle r) (hopen : g.databaseOf handle = .ok database) {dir' : Path}
    {collection' : String} (hdir' : g.store.directoryOf database' = some dir')
    (hne : (database', collection') ≠ (database, handle.collection)) :
    g'.fileOf dir' collection' = g.fileOf dir' collection' := by
  cases h with
  | quiet _ hfiles => exact hfiles _ _
  | changed ha' _ _ hopen' hsave =>
    cases ha.symm.trans ha'
    cases hopen.symm.trans hopen'
    refine fileOf_of_save hsave ?_
    -- two databases in one directory would have its key as their name
    rintro hdir rfl
    exact hne (by rw [hkey hdir, hkey hdir'])

/-- Of a collection in a directory an action changes neither copy, or it writes one line for each
of its new documents. -/
theorem Effect.copies {database : String} {dir : Path}
    (hdir : g.store.directoryOf database = some dir) (collection : String) :
    (g'.store.documents database collection = g.store.documents database collection ∧
      g'.fileOf dir collection = g.fileOf dir collection) ∨
    HoldsLines (g'.fileOf dir collection) (g'.store.documents database collection) := by
  cases h with
  | quiet _ hfiles hmounted =>
    refine .inl ⟨?_, hfiles _ _⟩
    obtain ⟨db, hdb, -⟩ := Option.bind_eq_some_iff.mp hdir
    unfold Store.documents
    rw [hdb, hmounted.get?_eq hdb]
  | @changed handle r answer database' docs ha hr hout hopen hsave hreplaced =>
    by_cases hsame : (database, collection) = (database', handle.collection)
    · obtain ⟨rfl, rfl⟩ := Prod.mk.inj hsame
      rw [hreplaced.leaves.here]
      exact .inr (holdsLines_of_save hsave hdir)
    · have heffect : Effect g a outcome g' := .changed ha hr hout hopen hsave hreplaced
      exact .inl ⟨hreplaced.leaves.elsewhere _ _ hsame,
        heffect.fileOf_other hkey ha hopen hdir hsame⟩

end Effect

theorem Effect.directoryOf {g g' : Engine} {a : Action} {outcome : Except StoreError Answer}
    (h : Effect g a outcome g') {database : String} {dir : Path}
    (hdir : g'.store.directoryOf database = some dir) :
    g.store.directoryOf database = some dir ∨
      (database = directoryKey dir ∧ ∀ collection, collection ≠ "" →
        Coherent g' database dir collection) := by
  cases h with
  | quiet _ _ hmounted => exact hmounted.directoryOf hdir
  | changed _ _ _ _ _ hreplaced =>
    rw [Store.directoryOf_congr hreplaced.databases, Store.directoryOf_setDocuments] at hdir
    exact .inl hdir

/-- A database stays where it is kept. -/
theorem Effect.directoryOf_kept {g g' : Engine} {a : Action}
    {outcome : Except StoreError Answer} (h : Effect g a outcome g') {database : String}
    {dir : Path} (hdir : g.store.directoryOf database = some dir) :
    g'.store.directoryOf database = some dir := by
  cases h with
  | quiet _ _ hmounted =>
    obtain ⟨db, hdb, hkept⟩ := Option.bind_eq_some_iff.mp hdir
    exact Option.bind_eq_some_iff.mpr ⟨db, hmounted.get?_eq hdb, hkept⟩
  | changed _ _ _ _ _ hreplaced =>
    rw [Store.directoryOf_congr hreplaced.databases, Store.directoryOf_setDocuments, hdir]

/-- An action keeps memory and files in step. -/
theorem Effect.inStep {g g' : Engine} {a : Action} {outcome : Except StoreError Answer}
    (h : Effect g a outcome g') (hg : InStep g) : InStep g' where
  key hdir := by
    rcases h.directoryOf hdir with hdir | ⟨hkey, -⟩
    · exact hg.key hdir
    · exact hkey
  coherent hdir hname := by
    rcases h.directoryOf hdir with hdir | ⟨-, hread⟩
    · rcases h.copies hg.key hdir _ with ⟨hdocs, hfile⟩ | hlines
      · exact (hg.coherent hdir hname).congr hdocs hfile
      · exact .inl hlines
    · exact hread _ hname

/-- So does a whole course. -/
theorem Course.inStep {g₀ g : Engine} (h : Course g₀ g) (h₀ : InStep g₀) : InStep g := by
  induction h with
  | start => exact h₀
  | action _ hends ih => exact hends.effect.inStep ih
  | others files _ hkept ih =>
    exact ⟨ih.key, fun hdir hname => (ih.coherent hdir hname).congr rfl (hkept _ _ _ hdir)⟩

/-- A file that holds a collection line by line does so from then on: a change that succeeds writes
the lines anew, and nothing else touches either copy. -/
theorem Course.holdsLines {g g' : Engine} (h : Course g g') (hg : InStep g) {database : String}
    {dir : Path} {collection : String} (hdir : g.store.directoryOf database = some dir)
    (hlines : HoldsLines (g.fileOf dir collection) (g.store.documents database collection)) :
    g'.store.directoryOf database = some dir ∧
      HoldsLines (g'.fileOf dir collection) (g'.store.documents database collection) := by
  induction h with
  | start => exact ⟨hdir, hlines⟩
  | action hcourse hends ih =>
    obtain ⟨hdir, hlines⟩ := ih
    refine ⟨hends.effect.directoryOf_kept hdir, ?_⟩
    rcases hends.effect.copies (hcourse.inStep hg).key hdir collection with
      ⟨hdocs, hfile⟩ | hwritten
    · rw [hdocs, hfile]
      exact hlines
    · exact hwritten
  | others files _ hkept ih =>
    obtain ⟨hdir, hlines⟩ := ih
    refine ⟨hdir, ?_⟩
    unfold fileOf
    rw [hkept _ _ _ hdir]
    exact hlines

/-! ## Writing through -/

/-- What an action means for the files. -/
structure WritesThrough (g : Engine) (a : Action) (outcome : Except StoreError Answer)
    (g' : Engine) : Prop where
  /-- After a change that succeeds the file has one line for each document of the collection, in
  order. -/
  written : ∀ h r answer database dir, a = .request h r → Request.IsChange r →
    outcome = .ok answer → g.databaseOf h = .ok database →
    g.store.directoryOf database = some dir →
    HoldsLines (g'.fileOf dir h.collection) (g'.store.documents database h.collection)
  /-- After an action that fails, or is no change, every file of a collection is as before. -/
  kept : (∃ e, outcome = .error e) ∨ ¬ a.IsChange → SameFiles g g'
  /-- A request to one collection leaves the files of all others, of the same database and of every
  other one. -/
  apart : ∀ h r database, a = .request h r → g.databaseOf h = .ok database →
    ∀ database' dir' collection', g.store.directoryOf database' = some dir' →
      (database', collection') ≠ (database, h.collection) →
      g'.fileOf dir' collection' = g.fileOf dir' collection'
  /-- From then on the file follows the documents in memory, whatever happens next. -/
  lasting : ∀ later, Course g' later → ∀ database dir collection,
    g'.store.directoryOf database = some dir →
    HoldsLines (g'.fileOf dir collection) (g'.store.documents database collection) →
    HoldsLines (later.fileOf dir collection) (later.store.documents database collection)
  /-- Every file is that of the documents in memory. -/
  coherent : ∀ database dir collection, g'.store.directoryOf database = some dir →
    collection ≠ "" → Coherent g' database dir collection

/-- Adds a second item. -/
def second : Action := .request ⟨0, "items"⟩ (.insert [("_id", .int32 2)])

/-- The files after the write of a second item has broken off in the temporary file, and the state
then. -/
def torn : FileTree :=
  (withDue (.int32 5)).files.insert ["data", "items.ndjson.tmp"] (.file (.text "\x7b"))

def broken : Engine :=
  { (act second { withDue (.int32 5) with files := .empty }).2 with files := torn }

theorem ends_broken :
    Ends (withDue (.int32 5)) second (.error (.io (.system .notFound))) broken := by
  have hfails : (act second { withDue (.int32 5) with files := .empty }).1 =
      .error (.io (.system .notFound)) := by rfl
  have htemporary : (withDue (.int32 5)).temporary? second =
      some (["data", "items.ndjson.tmp"] : Path) := by rfl
  have hleft : ∀ p, (withDue (.int32 5)).temporary? second ≠ some p →
      torn.contents? p = (withDue (.int32 5)).files.contents? p := by
    intro p hp
    have hne : p ≠ (["data", "items.ndjson.tmp"] : Path) := by
      intro h
      rw [h] at hp
      exact hp htemporary
    refine FileTree.contents?_congr ?_
    unfold torn FileTree.get? FileTree.insert
    rw [Keyed.get?_put_other _ _ hne]
  have hends := Ends.disturbed .empty torn hfails hleft
  unfold broken
  dsimp only at hends ⊢
  exact hends

theorem act_due (date : Value) : connected.act (.request ⟨0, "items"⟩ (.insert (due date))) =
    (.ok (.report (.inserted (.int32 1))), withDue date) := by
  unfold act
  dsimp only
  rw [perform_connected]
  dsimp only [Except.map]

theorem act_data : (fresh emptyData [] (.numbered 0)).act (.connect "file:///data") =
    (.ok (.connection 0), connected) := by
  unfold act
  dsimp only
  rw [connect_data]
  dsimp only [Except.map]

/-- What an action comes to is one of its ends. -/
theorem ends_of_act {g g' : Engine} {a : Action} {outcome : Except StoreError Answer}
    (h : g.act a = (outcome, g')) : Ends g a outcome g' := by
  have hdone := Ends.done (g := g) a
  rw [h] at hdone
  exact hdone

end Engine
end DocQuery
