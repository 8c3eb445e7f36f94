import DocQuery.Proofs.Reopening

/-
  Where connection strings lead. A place is a database in memory, by its name, or one in a
  directory, by the path of the directory that leads through no link; a store keeps each under a
  key. The key of a directory is how its path is shown, so `Place.key_inj` says that no two places
  share a key unless both are directories and a name in one of the paths is no text. A connection
  string names a place: in memory by what is left of it without slashes at its ends, on disk by the
  directory that it resolves to.
-/

namespace DocQuery

/-! ## The text of a path -/

namespace Path

/-- A path in which every name is a text. -/
def IsText (p : Path) : Prop := ∃ names : List String, p = names.map .text

theorem Proper.of_cons {name : String} {names : List String}
    (h : Proper ((name :: names).map .text)) :
    (name ≠ "" ∧ '/' ∉ name.toList) ∧ Proper (names.map .text) :=
  List.forall_mem_cons.mp h

theorem toList_text_cons (name : String) (names : List String) :
    (text ((name :: names).map .text)).toList =
      '/' :: (name.toList ++ names.flatMap fun n => '/' :: n.toList) := by
  have hjoin : ∀ names : List String,
      (String.join ((names.map FileName.text).map fun n => "/" ++ n.shown)).toList =
        names.flatMap fun n => '/' :: n.toList := by
    intro names
    induction names with
    | nil => rfl
    | cons n names ih =>
      rw [List.map_cons, List.map_cons, String.join_cons, String.toList_append,
        String.toList_append, ih, FileName.shown_text]
      rfl
  unfold text
  rw [if_neg (by simp), hjoin]
  rfl

/-- The text of a path shows its names. -/
theorem split_text {name : String} {names : List String}
    (h : Proper ((name :: names).map .text)) :
    Text.split '/' (text ((name :: names).map .text)).toList =
      [] :: (name :: names).map String.toList := by
  have hnames : ∀ (names : List String) (n : String), '/' ∉ n.toList →
      Proper (names.map .text) →
      Text.split '/' (n.toList ++ names.flatMap fun n => '/' :: n.toList) =
        (n :: names).map String.toList := by
    intro names
    induction names with
    | nil =>
      intro n hn _
      rw [List.flatMap_nil, List.append_nil, Text.split_of_not_mem hn]
      rfl
    | cons m names ih =>
      intro n hn hproper
      obtain ⟨⟨-, hm⟩, hproper⟩ := hproper.of_cons
      rw [List.flatMap_cons, List.cons_append, Text.split_append hn, ih m hm hproper]
      rfl
  obtain ⟨⟨-, hname⟩, hproper⟩ := h.of_cons
  rw [toList_text_cons, Text.split, if_pos rfl, hnames names name hname hproper]

/-- Proper paths of texts that are shown alike are the same. -/
theorem text_inj {p q : Path} (hp : p.Proper) (hq : q.Proper) (hptext : p.IsText)
    (hqtext : q.IsText) (h : p.text = q.text) : p = q := by
  -- a slash alone would be the text of an empty name
  have hroot : ∀ {name : String} {names : List String}, Proper ((name :: names).map .text) →
      text ((name :: names).map .text) ≠ "/" := by
    intro name names hproper htext
    have hsplit := split_text hproper
    rw [htext] at hsplit
    have hname : name.toList = [] := (List.cons.inj (List.cons.inj hsplit).2).1.symm
    exact hproper.of_cons.1.1 (String.toList_eq_nil_iff.mp hname)
  obtain ⟨names, rfl⟩ := hptext
  obtain ⟨names', rfl⟩ := hqtext
  cases names with
  | nil =>
    cases names' with
    | nil => rfl
    | cons name' names' => exact absurd h.symm (hroot hq)
  | cons name names =>
    cases names' with
    | nil => exact absurd h (hroot hp)
    | cons name' names' =>
      have hsplit := split_text hp
      rw [h, split_text hq] at hsplit
      have hnames : Function.Injective (List.map String.toList) :=
        List.map_injective_iff.mpr fun _ _ => String.toList_injective
      rw [hnames (List.cons.inj hsplit).2]

end Path

/-! ## What connection strings name -/

/-- A text and what is left of it without the slashes at its ends. -/
def Stripped (text name : List Char) : Prop :=
  ∃ before after, text = List.replicate before '/' ++ (name ++ List.replicate after '/') ∧
    name.head? ≠ some '/' ∧ name.getLast? ≠ some '/'

/-- A place at which a database is kept. -/
inductive Place where
  | memory (name : String)
  | directory (dir : Path)

/-- The place that a connection string names. The files decide which directory a text leads to;
in memory, the empty name counts as that of the default database. -/
inductive Names (files : FileTree) (workingDirectory : Path) (uri : String) : Place → Prop where
  | memory {text name : List Char} (huri : uri.toList = "memory://".toList ++ text)
      (hname : Stripped text name) : Names files workingDirectory uri
        (.memory (if name = [] then "default" else String.ofList name))
  | directory {text : String} {dir : Path} (huri : uri = "file://" ++ text)
      (hdir : files.resolve workingDirectory text = .ok dir) :
      Names files workingDirectory uri (.directory dir)

namespace Address

theorem behind?_eq_some {front cs rest : List Char} :
    behind? front cs = some rest ↔ cs = front ++ rest := by
  induction front generalizing cs with
  | nil => simp [behind?, eq_comm]
  | cons c front ih =>
    cases cs with
    | nil => simp [behind?]
    | cons d cs =>
      by_cases h : c = d
      · simp [behind?, h, ih]
      · simp [behind?, h, Ne.symm h]

theorem dropWhile_replicate_append (n : Nat) {cs : List Char} (h : cs.head? ≠ some '/') :
    (List.replicate n '/' ++ cs).dropWhile (· = '/') = cs := by
  induction n with
  | zero =>
    cases cs with
    | nil => rfl
    | cons c cs =>
      have hc : c ≠ '/' := by simpa using h
      simp [hc]
  | succ n ih => simpa [List.replicate_succ] using ih

/-- A text is a number of slashes and what comes behind them. -/
theorem exists_dropWhile (cs : List Char) :
    ∃ n, cs = List.replicate n '/' ++ cs.dropWhile (· = '/') ∧
      (cs.dropWhile (· = '/')).head? ≠ some '/' := by
  induction cs with
  | nil => exact ⟨0, rfl, by simp⟩
  | cons c cs ih =>
    by_cases hc : c = '/'
    · obtain ⟨n, hcs, hhead⟩ := ih
      subst hc
      rw [List.dropWhile_cons_of_pos (by simp)]
      refine ⟨n + 1, ?_, hhead⟩
      rw [List.replicate_succ, List.cons_append, ← hcs]
    · rw [List.dropWhile_cons_of_neg (by simpa using hc)]
      exact ⟨0, rfl, by simpa using hc⟩

theorem trimSlashes_eq_iff {text name : List Char} :
    trimSlashes text = name ↔ Stripped text name := by
  unfold trimSlashes
  constructor
  · rintro rfl
    obtain ⟨before, hfront, hhead⟩ := exists_dropWhile text
    obtain ⟨after, hback, hlast⟩ := exists_dropWhile (text.dropWhile (· = '/')).reverse
    generalize text.dropWhile (· = '/') = middle at hfront hhead hback hlast ⊢
    generalize middle.reverse.dropWhile (· = '/') = name at hback hlast ⊢
    have hmiddle : middle = name.reverse ++ List.replicate after '/' := by
      rw [← List.reverse_reverse middle, hback, List.reverse_append, List.reverse_replicate]
    refine ⟨before, after, by rw [hfront, hmiddle], ?_, by rwa [List.getLast?_reverse]⟩
    intro hslash
    apply hhead
    rw [hmiddle, List.head?_append, hslash]
    rfl
  · rintro ⟨before, after, rfl, hhead, hlast⟩
    cases name with
    | nil =>
      rw [List.nil_append, List.replicate_append_replicate, ← List.append_nil (List.replicate _ _),
        dropWhile_replicate_append _ (by simp)]
      rfl
    | cons c name =>
      rw [dropWhile_replicate_append _ (by simpa using hhead), List.reverse_append,
        List.reverse_replicate, dropWhile_replicate_append _ (by rwa [List.head?_reverse]),
        List.reverse_reverse]

/-- A connection string that is read as that of a database in memory names it. -/
theorem names_of_parse_memory {uri name : String} (h : parse uri = .ok (.memory name))
    (files : FileTree) (workingDirectory : Path) :
    Names files workingDirectory uri (.memory name) := by
  unfold parse at h
  split at h
  · next rest hrest =>
    dsimp only at h
    split at h
    · cases h
    · have hnames : Names files workingDirectory uri _ :=
        .memory (behind?_eq_some.mp hrest) (trimSlashes_eq_iff.mp rfl)
      cases h
      simpa [defaultDatabase] using hnames
  · split at h
    · cases h
    · cases h
    · cases h

/-- One that names a database in memory is read as such unless a slash is left inside the name. -/
theorem parse_of_names {files : FileTree} {workingDirectory : Path} {uri name : String}
    (h : Names files workingDirectory uri (.memory name)) :
    parse uri = if '/' ∈ name.toList then .error (.invalidDatabaseName uri)
      else .ok (.memory name) := by
  cases h with
  | @memory text cs huri hname =>
    unfold parse
    rw [behind?_eq_some.mpr huri]
    dsimp only
    rw [trimSlashes_eq_iff.mpr hname]
    by_cases hempty : cs = []
    · subst hempty
      rfl
    · have hisEmpty : cs.isEmpty = false := by simpa using hempty
      rw [if_neg hempty, hisEmpty, String.toList_ofList]
      simp only [List.contains_iff_mem]
      rfl

/-- One that is read as that of a directory is the text of a path. -/
theorem eq_of_parse_directory {uri text : String} (h : parse uri = .ok (.directory text)) :
    uri = "file://" ++ text ∧ text ≠ "" := by
  unfold parse at h
  split at h
  · next rest _ =>
    dsimp only at h
    split at h
    · cases h
    · cases h
  · split at h
    · cases h
    · next path hne hpath =>
      cases h
      refine ⟨?_, ?_⟩
      · rw [← String.toList_inj, behind?_eq_some.mp hpath, String.toList_append]
        exact congrArg _ String.toList_ofList.symm
      · intro hempty
        have hnil : path = [] := by simpa using hempty
        exact hne hnil
    · cases h

end Address

/-- A connection string names at most one place. -/
theorem Names.unique {files : FileTree} {workingDirectory : Path} {uri : String} {p q : Place}
    (hp : Names files workingDirectory uri p) (hq : Names files workingDirectory uri q) : p = q := by
  -- the beginnings tell the two kinds apart
  have hapart : ∀ {text : List Char} {text' : String},
      uri.toList = "memory://".toList ++ text → uri = "file://" ++ text' → False := by
    rintro text text' hmemory rfl
    have hhead := congrArg List.head? hmemory
    simp at hhead
  cases hp with
  | memory huri hname =>
    cases hq with
    | memory huri' hname' =>
      have htext := List.append_cancel_left (huri.symm.trans huri')
      subst htext
      rw [(Address.trimSlashes_eq_iff.mpr hname).symm.trans (Address.trimSlashes_eq_iff.mpr hname')]
    | directory huri' => exact absurd (hapart huri huri') id
  | directory huri hdir =>
    cases hq with
    | memory huri' => exact absurd (hapart huri' huri) id
    | directory huri' hdir' =>
      have htext := huri.symm.trans huri'
      rw [← String.toList_inj, String.toList_append, String.toList_append,
        List.append_cancel_left_eq, String.toList_inj] at htext
      subst htext
      rw [Except.ok.inj (hdir.symm.trans hdir')]

/-! ## Keys -/

/-- The name under which a store keeps the database of a place. -/
def Place.key : Place → String
  | memory name => name
  | directory dir => Engine.directoryKey dir

/-- A place that there can be: a name without slashes, or the path of a directory. -/
def Place.Proper : Place → Prop
  | memory name => '/' ∉ name.toList
  | directory dir => dir.Proper

/-- Whether keys tell two places apart: for two directories, their paths have to be texts. -/
def Place.ToldByKey : Place → Place → Prop
  | directory dir, directory dir' => dir.IsText ∧ dir'.IsText
  | _, _ => True

theorem directoryKey_inj {dir dir' : Path} :
    Engine.directoryKey dir = Engine.directoryKey dir' ↔ dir.text = dir'.text := by
  unfold Engine.directoryKey
  rw [← String.toList_inj, String.toList_append, String.toList_append,
    List.append_cancel_left_eq, String.toList_inj]

/-- Only a directory has the key of one. -/
theorem Place.key_eq_directoryKey {place : Place} (hplace : place.Proper) {dir : Path} :
    place.key = Engine.directoryKey dir ↔
      ∃ dir', place = .directory dir' ∧ dir'.text = dir.text := by
  cases place with
  | memory name =>
    have hslash : name ≠ Engine.directoryKey dir := by
      rintro rfl
      exact hplace (Engine.slash_mem_directoryKey dir)
    exact ⟨fun h => absurd h hslash, fun ⟨_, h, _⟩ => by cases h⟩
  | directory dir' =>
    rw [key, directoryKey_inj]
    exact ⟨fun h => ⟨dir', rfl, h⟩, fun ⟨_, heq, h⟩ => by cases heq; exact h⟩

/-- Places that keys tell apart share none. -/
theorem Place.key_inj {p q : Place} (hp : p.Proper) (hq : q.Proper) (htold : p.ToldByKey q)
    (h : p.key = q.key) : p = q := by
  cases q with
  | memory other =>
    cases p with
    | memory name => exact congrArg _ h
    | directory dir =>
      obtain ⟨_, hother, -⟩ := (key_eq_directoryKey hq).mp h.symm
      cases hother
  | directory dir =>
    obtain ⟨dir', rfl, htext⟩ := (key_eq_directoryKey hp).mp h
    rw [Path.text_inj hp hq htold.1 htold.2 htext]

/-! ## Connecting to a place -/

namespace Engine

/-- Whether a connection string leads to a place with nothing to be made on the way. -/
def Reaches (uri : String) (g : Engine) : Place → Prop
  | .memory name => Address.parse uri = .ok (.memory name)
  | .directory dir => g.LeadsTo uri dir

/-- How a connection to a place is opened: its database is there then, and the string leads to
it. -/
structure Arrives (uri : String) (g : Engine) (place : Place) (n : Nat) (g' : Engine) : Prop where
  reaches : g'.Reaches uri place
  there : g'.store.Has place.key
  number : n = g.store.connections.length
  connections : g'.store.connections = g.store.connections ++ [⟨place.key, false⟩]
  workingDirectory : g'.workingDirectory = g.workingDirectory

section Reaches

variable {uri : String} {place : Place} {g g' : Engine}

theorem Reaches.names (h : g.Reaches uri place) :
    Names g.files g.workingDirectory uri place := by
  cases place with
  | memory name => exact Address.names_of_parse_memory h _ _
  | directory dir =>
    obtain ⟨text, haddress, hmade⟩ := h
    obtain ⟨huri, hne⟩ := Address.eq_of_parse_directory haddress
    exact .directory huri (FileTree.resolve_of_makeDirectories hne hmade)

theorem Reaches.proper (h : g.Reaches uri place) (hworking : g.workingDirectory.Proper) :
    place.Proper := by
  cases place with
  | memory name => exact Address.slash_not_mem_memory h
  | directory dir =>
    obtain ⟨text, haddress, hmade⟩ := h
    exact FileTree.proper_resolve hworking
      (FileTree.resolve_of_makeDirectories (Address.eq_of_parse_directory haddress).2 hmade)

/-- As long as no directory and no link is lost, a connection string leads to the same place. -/
theorem Reaches.kept (h : g.Reaches uri place)
    (hworking : g'.workingDirectory = g.workingDirectory) (hkeep : g.files.Keeps g'.files) :
    g'.Reaches uri place := by
  cases place with
  | memory name => exact h
  | directory dir =>
    obtain ⟨text, haddress, hmade⟩ := h
    refine ⟨text, haddress, ?_⟩
    rw [hworking]
    exact FileTree.makeDirectories_kept hmade hkeep

end Reaches

theorem Arrives.connection?_eq {uri : String} {place : Place} {g g' : Engine} {n : Nat}
    (h : Arrives uri g place n g') : g'.connection? n = some ⟨place.key, false⟩ := by
  unfold connection?
  rw [h.connections, h.number]
  simp

/-- Where connecting succeeds, it is to a place. -/
theorem arrives_of_connect {uri : String} {g g' : Engine} {n : Nat}
    (h : g.connect uri = (.ok n, g')) : ∃ place, Arrives uri g place n g' := by
  unfold connect at h
  split at h
  · cases h
  · next name haddress =>
    cases h
    have hconns := g.store.ensureDatabase_connections name
    refine ⟨.memory name, haddress, (g.store.has_ensureDatabase_iff name name).mpr (.inr rfl),
      congrArg _ hconns, ?_, rfl⟩
    show (g.store.ensureDatabase name).connections ++ [⟨name, false⟩] = _
    rw [hconns]
    rfl
  · next text haddress =>
    split at h
    · cases h
    · next files dir hmade =>
      have hkept := FileTree.makeDirectories_kept hmade (.refl files)
      refine ⟨.directory dir, ?_⟩
      dsimp only at h
      split at h
      · next db hdb =>
        cases h
        exact ⟨⟨text, haddress, hkept⟩, Store.has_iff.mpr ⟨db, hdb⟩, rfl, rfl, rfl⟩
      · split at h
        · cases h
        · next collections _ =>
          cases h
          exact ⟨⟨text, haddress, hkept⟩,
            Store.has_iff.mpr ⟨_, Keyed.get?_put_self _ _ _⟩, rfl, rfl, rfl⟩

/-- A connection string that leads to a place where the store has a database is connected to it,
and neither the databases nor the files change. -/
theorem connect_of_reaches {uri : String} {place : Place} {g : Engine} (h : g.Reaches uri place)
    (hthere : g.store.Has place.key) :
    ∃ n g', g.connect uri = (.ok n, g') ∧ g'.connection? n = some ⟨place.key, false⟩ ∧
      g'.store.databases = g.store.databases := by
  obtain ⟨db, hdb⟩ := Store.has_iff.mp hthere
  refine ⟨g.store.connections.length, (openConnection place.key uri g).2, ?_, ?_, rfl⟩
  · unfold connect
    cases place with
    | memory name =>
      have hsame : g.store.ensureDatabase name = g.store := by
        unfold Store.ensureDatabase
        rw [show Keyed.get? g.store.databases name = some db from hdb]
      rw [show Address.parse uri = _ from h]
      dsimp only
      rw [hsame]
      rfl
    | directory dir =>
      obtain ⟨text, haddress, hmade⟩ := h
      rw [haddress]
      dsimp only
      rw [hmade]
      dsimp only
      rw [show Keyed.get? g.store.databases (directoryKey dir) = some db from hdb]
      rfl
  · exact List.getElem?_concat_length ..

end Engine
end DocQuery
