import DocQuery.Engine
import DocQuery.Proofs.CollectionLines
import Mathlib.Data.List.Nodup

/-
  A directory of collection files. Names of collections and names of their files lead to one
  another, a collection that has been written is the only entry of the directory that has changed,
  and a directory is loaded entry by entry.
-/

namespace DocQuery

namespace CollectionFile

/-! ## Names -/

theorem getLast?_ending (collection : String) :
    (collection ++ ending).toList.getLast? = some 'n' := by
  unfold ending
  rw [String.toList_append, List.getLast?_append]
  rfl

theorem temporaryName_ne_fileName (collection other : String) :
    temporaryName collection ≠ fileName other := by
  intro h
  have hlast : (collection ++ ending ++ ".tmp").toList.getLast? = some 'p' := by
    rw [String.toList_append, List.getLast?_append]
    rfl
  rw [FileName.text.inj h, getLast?_ending] at hlast
  cases hlast

theorem fileName_inj {collection other : String} :
    fileName collection = fileName other ↔ collection = other := by
  constructor
  · intro h
    have hlist := congrArg String.toList (FileName.text.inj h)
    rw [String.toList_append, String.toList_append] at hlist
    exact String.toList_inj.mp (List.append_cancel_right hlist)
  · intro h
    rw [h]

/-- The names of collection files are those that end as such and have something in front. -/
theorem collectionOf?_eq_some {file : FileName} {collection : String} :
    collectionOf? file = some collection ↔ file = fileName collection ∧ collection ≠ "" := by
  have hlength : ending.length = 7 := by decide
  cases file with
  | bytes bs =>
    constructor
    · intro h
      cases h
    · rintro ⟨h, -⟩
      cases h
  | text file =>
    rw [fileName, FileName.text.injEq]
    unfold collectionOf?
    dsimp only
    constructor
    · intro h
      split at h
      · next hif =>
        obtain ⟨hpos, hdrop⟩ : 0 < file.toList.length - ending.length ∧
            file.toList.drop (file.toList.length - ending.length) = ending.toList := by
          simpa using hif
        have htake : file.toList.take (file.toList.length - ending.length) =
            collection.toList := by
          rw [← Option.some.inj h, String.toList_ofList]
        refine ⟨?_, ?_⟩
        · rw [← String.toList_inj, String.toList_append, ← htake, ← hdrop, List.take_append_drop]
        · rintro rfl
          have hzero := congrArg List.length htake
          rw [List.length_take, String.toList_empty, List.length_nil] at hzero
          omega
      · cases h
    · rintro ⟨rfl, hne⟩
      have hlist : (collection ++ ending).toList = collection.toList ++ ending.toList :=
        String.toList_append
      have hn : (collection ++ ending).toList.length - ending.length =
          collection.toList.length := by
        rw [hlist, List.length_append, hlength]
        have : ending.toList.length = 7 := by decide
        omega
      have hpos : 0 < collection.toList.length := by
        rw [List.length_pos_iff]
        intro h
        exact hne (String.toList_eq_nil_iff.mp h)
      rw [hn, hlist, List.drop_left, List.take_left, String.ofList_toList]
      simp [hpos]

theorem collectionOf?_fileName {collection : String} (h : collection ≠ "") :
    collectionOf? (fileName collection) = some collection :=
  collectionOf?_eq_some.mpr ⟨rfl, h⟩

end CollectionFile

/-! ## Single file operations -/

namespace FileTree

theorem get?_append_single (t : FileTree) (dir : Path) (name : FileName) :
    t.get? (dir ++ [name]) = Keyed.get? t.entries (dir ++ [name]) := by
  unfold get?
  rw [if_neg (by simp)]

theorem checkParent_eq_ok {t : FileTree} {dir : Path} {name : FileName}
    (h : t.checkParent dir name = .ok ()) :
    checkPath (dir ++ [name]) = .ok () ∧ t.get? dir = some .directory := by
  unfold checkParent at h
  split at h
  · cases h
  · next hc =>
    refine ⟨hc, ?_⟩
    split at h
    · next hd => exact hd
    · cases h
    · cases h

theorem write_eq_ok {t t' : FileTree} {dir : Path} {name : FileName} {contents : Contents}
    (h : t.write dir name contents = .ok t') :
    t.checkParent dir name = .ok () ∧ t.isWay (dir ++ [name]) = false ∧
      t' = t.insert (dir ++ [name]) (.file contents) := by
  unfold write at h
  split at h
  · cases h
  · next hp =>
    dsimp only at h
    split at h
    · cases h
    · next hd => exact ⟨hp, by simpa using hd, (Except.ok.inj h).symm⟩

theorem rename_eq_ok {t t' : FileTree} {dir : Path} {source target : FileName}
    (h : t.rename dir source target = .ok t') :
    ∃ entry, t.get? (dir ++ [source]) = some entry ∧ t.checkParent dir target = .ok () ∧
      t.isWay (dir ++ [target]) = false ∧
      t' = ⟨Keyed.put (Keyed.erase t.entries (dir ++ [source])) (dir ++ [target]) entry⟩ := by
  unfold rename at h
  split at h
  · cases h
  · cases h
  · next entry hs hp =>
    split at h
    · cases h
    · next hd =>
      split at h
      · cases h
      · exact ⟨entry, hs, hp, by simpa using hd, (Except.ok.inj h).symm⟩

end FileTree

namespace CollectionFile

/-! ## Writing a collection -/

/-- What a tree is after a collection has been written: its file is there, its temporary file no
more, and all else is as it was. -/
structure Wrote (files files' : FileTree) (dir : Path) (collection : String)
    (docs : List Document) : Prop where
  entries : files'.entries = Keyed.put
    (Keyed.erase files.entries (dir ++ [temporaryName collection]))
    (dir ++ [fileName collection]) (.file (.text (textOf docs)))
  checked : FileTree.checkPath (dir ++ [fileName collection]) = .ok ()
  temporary : files.isWay (dir ++ [temporaryName collection]) = false
  target : files.isWay (dir ++ [fileName collection]) = false

/-- No temporary file is the file of a collection, also not of one in another directory. -/
theorem append_temporaryName_ne (dir dir' : Path) (collection other : String) :
    dir' ++ [fileName other] ≠ dir ++ [temporaryName collection] := by
  intro h
  exact temporaryName_ne_fileName collection other (List.append_singleton_inj.mp h).2.symm

theorem wrote_of_write {files files' : FileTree} {dir : Path} {collection : String}
    {docs : List Document} (h : write files dir collection docs = ⟨files', .ok ()⟩) :
    Wrote files files' dir collection docs := by
  unfold write at h
  split at h
  · cases h
  · next staged hstaged =>
    obtain ⟨-, htemporary, hstage⟩ := FileTree.write_eq_ok hstaged
    split at h
    · cases h
    · next done hdone =>
      cases h
      obtain ⟨entry, hentry, hparent, htarget, rfl⟩ := FileTree.rename_eq_ok hdone
      have hentries : staged.entries = Keyed.put files.entries
          (dir ++ [temporaryName collection]) (.file (.text (textOf docs))) := by
        rw [hstage]; rfl
      have hfile : entry = .file (.text (textOf docs)) := by
        rw [FileTree.get?_append_single, hentries, Keyed.get?_put_self] at hentry
        exact (Option.some.inj hentry).symm
      refine ⟨?_, (FileTree.checkParent_eq_ok hparent).1, htemporary, ?_⟩
      · rw [hfile, hentries, Keyed.erase_put_self]
      · unfold FileTree.isWay at htarget ⊢
        rw [FileTree.get?_append_single] at htarget ⊢
        have hne := append_temporaryName_ne dir dir collection collection
        rw [hentries, Keyed.get?_put_other _ _ hne] at htarget
        exact htarget

section Wrote

variable {files files' : FileTree} {dir : Path} {collection : String} {docs : List Document}
  (h : Wrote files files' dir collection docs)
include h

theorem Wrote.get?_self :
    files'.get? (dir ++ [fileName collection]) = some (.file (.text (textOf docs))) := by
  rw [FileTree.get?_append_single, h.entries, Keyed.get?_put_self]

/-- What is neither the file nor its temporary file is as it was. -/
theorem Wrote.get?_other {p : Path} (hfile : p ≠ dir ++ [fileName collection])
    (htemporary : p ≠ dir ++ [temporaryName collection]) : files'.get? p = files.get? p := by
  unfold FileTree.get?
  rw [h.entries, Keyed.get?_put_other _ _ hfile, Keyed.get?_erase_other _ htemporary]

theorem Wrote.nodup (hkeys : (Keyed.keys files.entries).Nodup) :
    (Keyed.keys files'.entries).Nodup := by
  rw [h.entries]
  exact Keyed.nodup_keys_put (Keyed.nodup_keys_erase hkeys _) _ _

end Wrote

/-! ## Loading a directory -/

theorem mem_children {t : FileTree} {dir : Path} {name : FileName} {entry : Entry} :
    (name, entry) ∈ t.children dir ↔ (dir ++ [name], entry) ∈ t.entries := by
  unfold FileTree.children
  rw [List.mem_filterMap]
  constructor
  · rintro ⟨⟨p, e⟩, hmem, hif⟩
    dsimp only at hif
    split at hif
    · next last hlast =>
      split at hif
      · next hp =>
        cases hif
        exact hp ▸ hmem
      · cases hif
    · cases hif
  · intro hmem
    exact ⟨(dir ++ [name], entry), hmem, by simp⟩

/-- The name of an entry of a directory, from its path. -/
def nameIn? (dir p : Path) : Option FileName :=
  p.getLast?.bind fun name => if p = dir ++ [name] then some name else none

theorem nameIn?_eq_some {dir p : Path} {name : FileName} :
    nameIn? dir p = some name ↔ p = dir ++ [name] := by
  unfold nameIn?
  constructor
  · intro h
    obtain ⟨last, -, hif⟩ := Option.bind_eq_some_iff.mp h
    split at hif
    · next hp => rw [hp, Option.some.inj hif]
    · cases hif
  · rintro rfl
    simp

theorem map_fst_children (t : FileTree) (dir : Path) :
    (t.children dir).map Prod.fst = (Keyed.keys t.entries).filterMap (nameIn? dir) := by
  unfold FileTree.children Keyed.keys
  rw [List.map_filterMap, List.filterMap_map]
  congr 1
  funext e
  unfold nameIn?
  dsimp only [Function.comp]
  cases e.1.getLast? with
  | none => rfl
  | some last =>
    simp only [Option.bind_some]
    split <;> rfl

theorem nodup_children {t : FileTree} (h : (Keyed.keys t.entries).Nodup) (dir : Path) :
    ((t.children dir).map Prod.fst).Nodup := by
  rw [map_fst_children]
  refine List.Nodup.filterMap ?_ h
  intro p p' name hp hp'
  rw [nameIn?_eq_some.mp hp, nameIn?_eq_some.mp hp']

theorem result_loadEntries_cons (dir : Path) (name : FileName) (entry : Entry)
    (rest : List (FileName × Entry)) :
    (loadEntries dir ((name, entry) :: rest)).result =
      match collectionOf? name with
      | none => (loadEntries dir rest).result
      | some collection =>
        match readEntry (Path.text (dir ++ [name])) entry with
        | .error e => .error e
        | .ok docs => (loadEntries dir rest).result.map ((collection, docs) :: ·) := by
  show Loaded.result (match collectionOf? name with
    | none => loadEntries dir rest
    | some collection => _) = _
  cases collectionOf? name with
  | none => rfl
  | some collection =>
    dsimp only
    cases readEntry (Path.text (dir ++ [name])) entry with
    | error e => rfl
    | ok docs => rfl

/-- A directory can be loaded when each of its collection files can be read. -/
theorem exists_loadEntries (dir : Path) (entries : List (FileName × Entry)) :
    (∃ collections, (loadEntries dir entries).result = .ok collections) ↔
      ∀ e ∈ entries, (collectionOf? e.1).isSome = true →
        ∃ docs, readEntry (Path.text (dir ++ [e.1])) e.2 = .ok docs := by
  induction entries with
  | nil => exact ⟨fun _ e he => absurd he List.not_mem_nil, fun _ => ⟨[], rfl⟩⟩
  | cons e entries ih =>
    obtain ⟨name, entry⟩ := e
    rw [List.forall_mem_cons, ← ih, result_loadEntries_cons]
    cases collectionOf? name with
    | none => simp
    | some collection =>
      cases readEntry (Path.text (dir ++ [name])) entry with
      | error e => simp
      | ok docs =>
        cases (loadEntries dir entries).result with
        | error e => simp [Except.map]
        | ok collections => simp [Except.map]

/-- The collections among the entries of a directory, with given documents. -/
def collectionsAmong (documents : String → List Document) (entries : List (FileName × Entry)) :
    Keyed String (List Document) :=
  entries.filterMap fun e => (collectionOf? e.1).map fun collection =>
    (collection, documents collection)

theorem keys_collectionsAmong (documents : String → List Document)
    (entries : List (FileName × Entry)) :
    Keyed.keys (collectionsAmong documents entries) =
      (entries.map Prod.fst).filterMap collectionOf? := by
  unfold Keyed.keys collectionsAmong
  rw [List.map_filterMap, List.filterMap_map]
  congr 1
  funext e
  dsimp only [Function.comp]
  cases collectionOf? e.1 <;> rfl

theorem nodup_collectionsAmong (documents : String → List Document)
    {entries : List (FileName × Entry)} (h : (entries.map Prod.fst).Nodup) :
    (Keyed.keys (collectionsAmong documents entries)).Nodup := by
  rw [keys_collectionsAmong]
  refine List.Nodup.filterMap ?_ h
  intro name name' collection hname hname'
  rw [(collectionOf?_eq_some.mp hname).1, (collectionOf?_eq_some.mp hname').1]

/-- What a directory whose collection files can be read is loaded as. -/
theorem loadEntries_eq_ok {dir : Path} {entries : List (FileName × Entry)}
    (documents : String → List Document)
    (h : ∀ e ∈ entries, ∀ collection, collectionOf? e.1 = some collection →
      readEntry (Path.text (dir ++ [e.1])) e.2 = .ok (documents collection)) :
    (loadEntries dir entries).result = .ok (collectionsAmong documents entries) := by
  unfold collectionsAmong
  induction entries with
  | nil => rfl
  | cons e entries ih =>
    obtain ⟨name, entry⟩ := e
    have ih := ih (by intro x hx; exact h x (List.mem_cons_of_mem _ hx))
    have hread := h (name, entry) List.mem_cons_self
    rw [result_loadEntries_cons, List.filterMap_cons, ih]
    cases hc : collectionOf? name with
    | none => rfl
    | some collection =>
      dsimp only
      rw [hread collection hc]
      rfl

end CollectionFile
end DocQuery
