import DocQuery.CommandLine
import DocQuery.Proofs.Endings
import DocQuery.Proofs.WriteThrough

/-
  What an invocation of the program leaves of the collection files. An invocation that ends with an
  error, and one that only searches, leaves every file of every collection as it was, wherever it
  ends: among the arguments, in the configuration, among the steps of the query, in the middle of an
  update or in a write. The log is written next to all this; `getLast?_logNames` says that its files
  keep their names whatever is put in the place of references in their paths.
-/

namespace DocQuery

namespace Log.Reference

/-! ## The end of a path with references -/

/-- No reference reaches into a text without a closing brace. -/
theorem length_le_of_prefix {old text tail : List Char} {closing : Char}
    (hold : old.getLast? = some closing) (htail : closing ∉ tail) (h : old <+: text ++ tail) :
    old.length ≤ text.length := by
  obtain ⟨rest, hrest⟩ := h
  rcases List.append_eq_append_iff.mp hrest with ⟨middle, htext, -⟩ | ⟨middle, hsplit, htails⟩
  · rw [htext, List.length_append]
    omega
  · cases middle using List.reverseRecOn with
    | nil => rw [hsplit, List.append_nil]
    | append_singleton middle c =>
      have hc : c = closing := by
        rw [hsplit, ← List.append_assoc, List.getLast?_concat] at hold
        exact Option.some.inj hold
      refine absurd ?_ htail
      rw [htails, hc]
      simp

/-- A replacement keeps what no occurrence can reach into. -/
theorem replaceAll_append {old tail : List Char} {closing : Char}
    (hold : old.getLast? = some closing) (htail : closing ∉ tail) (new text : List Char)
    (left : Nat) (hleft : left ≤ text.length) :
    ∃ start, replaceAll old new left (text ++ tail) = start ++ tail := by
  induction text generalizing left with
  | nil =>
    obtain rfl : left = 0 := by simpa using hleft
    refine ⟨[], ?_⟩
    clear hleft
    induction tail with
    | nil => rfl
    | cons c tail ih =>
      have hnot : old.isPrefixOf (c :: tail) = false := by
        by_contra h
        have hprefix : old <+: [] ++ c :: tail :=
          List.isPrefixOf_iff_prefix.mp (Bool.eq_true_of_not_eq_false h)
        have hlength := length_le_of_prefix hold htail hprefix
        have hnil : old = [] := List.length_eq_zero_iff.mp (Nat.le_zero.mp hlength)
        rw [hnil] at hold
        cases hold
      have hrest : replaceAll old new 0 tail = tail :=
        ih fun hmem => htail (List.mem_cons_of_mem _ hmem)
      rw [List.nil_append, replaceAll, hnot, hrest]
      rfl
  | cons c text ih =>
    cases left with
    | succ left => exact ih left (by simpa using hleft)
    | zero =>
      rw [List.cons_append, replaceAll]
      split
      · next hprefix =>
        have hreach : old <+: (c :: text) ++ tail := List.isPrefixOf_iff_prefix.mp hprefix
        have hlength := length_le_of_prefix hold htail hreach
        obtain ⟨start, hstart⟩ := ih (old.length - 1) (by simp at hlength; omega)
        exact ⟨new ++ start, by rw [hstart, List.append_assoc]⟩
      · obtain ⟨start, hstart⟩ := ih 0 (Nat.zero_le _)
        exact ⟨c :: start, by rw [hstart, List.cons_append]⟩

/-- Expanding the references in a path keeps what comes after the last closing brace. -/
theorem toList_expand {env : Environment} {text : String} {start tail : List Char}
    (htext : text.toList = start ++ tail) (htail : '\x7d' ∉ tail) :
    ∃ start', (expand env text).toList = start' ++ tail := by
  have hfold : ∀ (put : List Char → List Char → List Char),
      (∀ start name, ∃ start', put (start ++ tail) name = start' ++ tail) →
      ∀ (found : List (List Char)) (start : List Char),
      ∃ start', found.foldl put (start ++ tail) = start' ++ tail := by
    intro put hput found
    induction found with
    | nil => exact fun start => ⟨start, rfl⟩
    | cons name found ih =>
      intro start
      obtain ⟨next, hnext⟩ := hput start name
      rw [List.foldl_cons, hnext]
      exact ih next
  unfold expand
  rw [String.toList_ofList, htext]
  refine hfold _ ?_ _ start
  intro start name
  cases env.get? (String.ofList name) with
  | none => exact ⟨start, rfl⟩
  | some value =>
    have hclosing : (written name).getLast? = some '\x7d' := List.getLast?_concat ..
    exact replaceAll_append hclosing htail value.toList start 0 (Nat.zero_le _)

end Log.Reference

namespace Log.Setup

/-- Whether a name is that of a file of the log. -/
def IsLogFile (name : String) : Prop := name = appFile ∨ name = traceFile

/-- The files of the log keep their names, whatever stands for the references in their paths. -/
theorem getLast?_logNames {name : String} (h : IsLogFile name) (env : Environment)
    (directory : String) :
    (FileTree.namesOf (Reference.expand env (Config.joinPath directory name))).getLast? =
      some (.text name) := by
  obtain ⟨hname, hbrace, hslash⟩ : (name ≠ "" ∧ name ≠ ".") ∧ '\x7d' ∉ '/' :: name.toList ∧
      '/' ∉ name.toList := by
    rcases h with rfl | rfl <;> decide
  have hlast : ∀ start : List Char, (FileTree.namesOf
      (String.ofList (start ++ '/' :: name.toList))).getLast? = some (.text name) := by
    intro start
    unfold FileTree.namesOf
    rw [String.toList_ofList, Text.split_append_sep, Text.split_of_not_mem hslash, List.map_append,
      List.filter_append, List.map_cons, List.map_nil, String.ofList_toList,
      List.filter_cons_of_pos (by simp [hname]), List.filter_nil, List.map_append]
    exact List.getLast?_concat ..
  unfold Config.joinPath
  split
  · rcases h with rfl | rfl
    · rw [Reference.expand_eq_self env appFile (by decide)]
      decide
    · rw [Reference.expand_eq_self env traceFile (by decide)]
      decide
  · have hjoined : ∃ start, (if directory.toList.getLast? = some '/' then directory ++ name
        else directory ++ "/" ++ name).toList = start ++ '/' :: name.toList := by
      split
      · next hslash =>
        obtain ⟨start, hstart⟩ := List.getLast?_eq_some_iff.mp hslash
        exact ⟨start, by rw [String.toList_append, hstart, List.append_assoc]; rfl⟩
      · refine ⟨directory.toList, ?_⟩
        rw [String.toList_append, String.toList_append, List.append_assoc]
        rfl
    obtain ⟨start, hstart⟩ := hjoined
    obtain ⟨start', hexpanded⟩ := Reference.toList_expand hstart hbrace
    rw [← hlast start', ← hexpanded, String.ofList_toList]

end Log.Setup

/-! ## What the log leaves -/

namespace CollectionFile

/-- Whether two trees have the same collection files, in all directories. -/
def Kept (files files' : FileTree) : Prop :=
  ∀ dir collection, files'.contents? (dir ++ [fileName collection]) =
    files.contents? (dir ++ [fileName collection])

theorem Kept.refl (files : FileTree) : Kept files files := fun _ _ => rfl

theorem Kept.trans {files files' files'' : FileTree} (h : Kept files files')
    (h' : Kept files' files'') : Kept files files'' :=
  fun dir collection => (h' dir collection).trans (h dir collection)

/-- No file of the log is that of a collection. -/
theorem fileName_ne_logFile {name : String} (h : Log.Setup.IsLogFile name) (collection : String) :
    fileName collection ≠ .text name := by
  intro he
  have hlast := getLast?_ending collection
  rw [FileName.text.inj he] at hlast
  rcases h with rfl | rfl
  · cases hlast
  · cases hlast

theorem kept_of_write {files files' : FileTree} {dir : Path} {name : String}
    {contents : Contents} (h : files.write dir (.text name) contents = .ok files')
    (hname : Log.Setup.IsLogFile name) : Kept files files' := by
  intro dir' collection
  obtain ⟨-, -, rfl⟩ := FileTree.write_eq_ok h
  have hne : dir' ++ [fileName collection] ≠ dir ++ [.text name] := fun hpath =>
    fileName_ne_logFile hname collection (List.append_singleton_inj.mp hpath).2
  refine FileTree.contents?_congr ?_
  unfold FileTree.get? FileTree.insert
  rw [Keyed.get?_put_other _ _ hne]

end CollectionFile

namespace Log.Setup

open CollectionFile (Kept)

theorem kept_openFile (env : Environment) (files : FileTree) (directory : String) {name : String}
    (hname : IsLogFile name) : Kept files (openFile env files directory name).files := by
  have hlast := getLast?_logNames hname env directory
  unfold openFile FileTree.openFile
  dsimp only
  generalize FileTree.startOf env.workingDirectory _ = start
  generalize FileTree.namesOf _ = names at hlast ⊢
  rw [hlast]
  have hmade : Kept files (files.makeAlong FileTree.maxLinks start names.dropLast).files :=
    fun dir collection => files.contents?_makeAlong FileTree.maxLinks start names.dropLast _
  generalize files.makeAlong FileTree.maxLinks start names.dropLast = made at hmade ⊢
  obtain ⟨files', e | dir⟩ := made
  · exact hmade
  · dsimp only
    split
    · exact hmade
    · exact hmade
    · split
      · exact hmade
      · next hwrite => exact hmade.trans (CollectionFile.kept_of_write hwrite hname)

/-- Setting logging up leaves all collection files. -/
theorem kept_build (env : Environment) (files : FileTree) (directory : Option String)
    (threshold : Threshold) (retention : Option Nat) :
    Kept files (build env files directory threshold retention).1 := by
  unfold build openFiles
  dsimp only
  split
  · exact .refl files
  · next text =>
    have hmade : Kept files (files.makeDirectories env.workingDirectory text).files :=
      fun dir collection => files.contents?_makeDirectories _ text _
    generalize files.makeDirectories env.workingDirectory text = made at hmade ⊢
    obtain ⟨files₁, e | dir⟩ := made
    · exact hmade
    · have happ := hmade.trans (kept_openFile env files₁ text (.inl rfl))
      dsimp only
      generalize openFile env files₁ text appFile = opened at happ ⊢
      obtain ⟨files₂, e | dir₂⟩ := opened
      · exact happ
      · have htrace := happ.trans (kept_openFile env files₂ text (.inr rfl))
        dsimp only
        generalize openFile env files₂ text traceFile = opened at htrace ⊢
        obtain ⟨files₃, e | dir₃⟩ := opened
        · exact htrace
        · exact htrace

theorem kept_appendLines (files : FileTree) (dir : Path) {name : String} (hname : IsLogFile name)
    (new : List String) : Kept files (appendLines files dir name new) := by
  unfold appendLines
  dsimp only
  split
  · next hwrite => exact CollectionFile.kept_of_write hwrite hname
  · exact .refl files

/-- So does writing its records. -/
theorem kept_deliver (s : Setup) (records : List Record) (files : FileTree) :
    Kept files (s.deliver records files) := by
  unfold deliver
  split
  · exact .refl files
  · exact (kept_appendLines _ _ (.inl rfl) _).trans (kept_appendLines _ _ (.inr rfl) _)

end Log.Setup

/-! ## What a run leaves -/

/-- A search asks the collection to search, and for nothing else. -/
theorem Run.exists_find_of_request {κ η : Type} {c : Session κ η} {r : Request}
    (h : Run.request c .find = .ok r) : ∃ filter, r = .find filter := by
  unfold Run.request at h
  cases hfilter : Run.required c.filter Operation.find.kind .filter with
  | error e =>
    rw [hfilter] at h
    cases h
  | ok filter =>
    rw [hfilter] at h
    exact ⟨filter, (Except.ok.inj h).symm⟩

namespace Engine

/-- A driver that works on a store: each of its calls is an action of the store, which the file
system may disturb, and its notes go to the log. -/
structure Operates (d : Driver Engine Nat Handle) : Prop where
  connect : ∀ uri g, Ends g (.connect uri) ((d.connect uri g).1.map .connection) (d.connect uri g).2
  collection : ∀ conn name g, Ends g (.collection conn name)
    ((d.collection conn name g).1.map .collection) (d.collection conn name g).2
  request : ∀ h r g, Ends g (.request h r) ((d.perform h r g).1.map .report) (d.perform h r g).2
  close : ∀ conn g, Ends g (.close conn) ((d.close conn g).1.map fun _ => .closed) (d.close conn g).2
  note : ∀ record g, d.note record g = g.note record.level record.target record.text

theorem operates_driver : Operates driver where
  connect uri _ := .done (.connect uri)
  collection conn name _ := .done (.collection conn name)
  request h r _ := .done (.request h r)
  close conn _ := .done (.close conn)
  note _ _ := rfl

theorem SameFiles.ends {g₀ g g' : Engine} {a : Action} {outcome : Except StoreError Answer}
    (h : SameFiles g₀ g) (hends : Ends g a outcome g')
    (hquiet : (∃ e, outcome = .error e) ∨ ¬ a.IsChange) : SameFiles g₀ g' :=
  fun dir collection => (hends.effect.sameFiles hquiet dir collection).trans (h dir collection)

section Operates

variable {d : Driver Engine Nat Handle} (hd : Operates d) {g₀ : Engine}
include hd

theorem Operates.note_kept (record : Log.Record) (g : Engine) (h : SameFiles g₀ g) :
    SameFiles g₀ (d.note record g) := by
  rw [hd.note]
  exact h

/-- A run that ends with an error, and one that searches, leaves all collection files. -/
theorem Operates.run_kept {steps : List Step} {op : Operation}
    (hquiet : (∃ e, (Run.run d steps op g₀).1 = .error e) ∨ op = .find) :
    SameFiles g₀ (Run.run d steps op g₀).2 := by
  have hclose : ∀ conn g, SameFiles g₀ g → SameFiles g₀ (d.close conn g).2 :=
    fun conn g h => h.ends (hd.close conn g) (.inr id)
  -- the steps before the end change nothing, wherever they stop
  have hsteps : SameFiles g₀ (Run.runSteps d (steps.length + 1) 1 steps .empty g₀).2.2 :=
    Run.runSteps_keep_calls hd.note_kept hclose
      (fun uri _ g h => h.ends (hd.connect uri g) (.inr id))
      (fun conn name g h => h.ends (hd.collection conn name g) (.inr id))
      (steps.length + 1) (fun _ _ => rfl)
  refine (Run.run_keeps hd.note_kept hclose steps op g₀ ?_).2
  obtain ⟨c, g', hdrive, hended⟩ := Run.run_ended d steps op g₀
  rw [hdrive]
  generalize (Run.run d steps op g₀).1 = outcome at hquiet hended
  cases hended with
  | halted hhalted =>
    rw [Run.runSteps_of_halted hhalted] at hsteps
    exact hsteps
  | @unready c g₁ hpassed hmissing =>
    rw [Run.runSteps_eq_of_passed hpassed] at hsteps
    rcases Run.validate_cases d c op.kind g₁ with ⟨hready, -⟩ | ⟨-, record, hv⟩
    · exact absurd hready hmissing
    · rw [hv]
      exact hd.note_kept record g₁ hsteps
  | @answered c coll r answer g₁ g₂ hpassed hready hcoll hrequest hcall =>
    rw [Run.runSteps_eq_of_passed hpassed] at hsteps
    have hends := hd.request coll r (Run.debug d Log.documentTarget (Run.requestText op.kind r)
      (Run.announce d (steps.length + 1) steps op.kind g₁))
    rw [hcall] at hends
    refine SameFiles.ends (hd.note_kept _ _ (hd.note_kept _ _ hsteps)) hends ?_
    rcases hquiet with ⟨e, he⟩ | rfl
    · left
      cases answer with
      | error cause => exact ⟨cause, rfl⟩
      | ok report => cases he
    · right
      obtain ⟨filter, rfl⟩ := Run.exists_find_of_request hrequest
      exact id

end Operates

end Engine

/-! ## What an invocation leaves -/

namespace CommandLine

open CollectionFile (Kept)

/-- Whether arguments ask for a search. -/
def Searches (args : List String) : Prop := ∃ i a, parse args = .run i ∧ i.command = .find a

theorem operation_of_plan {base q : Query} {a : FilterArguments} {op : Operation}
    (h : plan base (.find a) = .ok (q, op)) : op = .find := by
  unfold plan at h
  dsimp only at h
  cases hfilter : applyFilter base a with
  | error e =>
    rw [hfilter] at h
    cases h
  | ok q' =>
    rw [hfilter] at h
    cases h
    rfl

theorem exists_error {o : Outcome} (h : o.code ≠ 0) : ∃ e, o.result = .error e := by
  unfold Outcome.code at h
  split at h
  · exact absurd rfl h
  · next e he => exact ⟨e, he⟩

section Operates

variable {d : Driver Engine Nat Handle} (hd : Engine.Operates d)
include hd

theorem kept_runCommand (base : Query) (command : Command) (g : Engine)
    (hquiet : (∃ e, (runCommand d base command g).1 = .error e) ∨ ∃ a, command = .find a) :
    Kept g.files (runCommand d base command g).2.files := by
  unfold runCommand at hquiet ⊢
  rcases hplan : plan base command with e | ⟨q, op⟩
  · exact .refl _
  · rw [hplan] at hquiet
    have hends : (∃ e, (q.run d op g).1 = .error e) ∨ op = .find := by
      rcases hquiet with ⟨e, he⟩ | ⟨a, rfl⟩
      · left
        rcases hrun : q.run d op g with ⟨cause | report, g'⟩
        · exact ⟨cause, rfl⟩
        · dsimp only at he
          rw [hrun] at he
          cases he
      · exact .inr (operation_of_plan hplan)
    have hkept := hd.run_kept hends
    unfold Query.run at hkept ⊢
    dsimp only
    generalize Run.run d q.steps op g = outcome at hkept ⊢
    obtain ⟨e | report, g'⟩ := outcome
    · exact hkept
    · exact hkept

theorem kept_runInvocation {env : Environment} {files : FileTree} {ids : Nat → ObjectId}
    {i : Invocation}
    (hquiet : (runInvocation d env files ids i).code ≠ 0 ∨ ∃ a, i.command = .find a) :
    Kept files (runInvocation d env files ids i).files := by
  replace hquiet := hquiet.imp_left exists_error
  unfold runInvocation at hquiet ⊢
  rcases hconfig : Config.load env files (overrides i) i.config with e | config
  · exact .refl files
  · rw [hconfig] at hquiet
    dsimp only at hquiet ⊢
    have hbuilt := Log.Setup.kept_build env files config.log.directory
      (Log.Threshold.parse (some (config.log.level.getD "warn"))) config.log.retention
    generalize Log.Setup.build env files config.log.directory
      (Log.Threshold.parse (some (config.log.level.getD "warn"))) config.log.retention = built
      at hbuilt hquiet ⊢
    obtain ⟨files', setup⟩ := built
    dsimp only at hbuilt hquiet ⊢
    cases hcollection : config.collection with
    | none => exact hbuilt
    | some collection =>
      rw [hcollection] at hquiet
      dsimp only at hquiet ⊢
      have hran := kept_runCommand hd
        ((Query.empty.server config.effectiveUri).collection collection) i.command
        ⟨files', env.workingDirectory, .empty ids, []⟩
      generalize runCommand d ((Query.empty.server config.effectiveUri).collection collection)
        i.command ⟨files', env.workingDirectory, .empty ids, []⟩ = ran at hran hquiet ⊢
      obtain ⟨result, g⟩ := ran
      dsimp only at hran hquiet ⊢
      have hends : (∃ e, result = .error e) ∨ ∃ a, i.command = .find a := by
        refine hquiet.imp_left ?_
        rintro ⟨e, he⟩
        cases result with
        | error cause => exact ⟨cause, rfl⟩
        | ok report => cases setup <;> cases he
      cases setup with
      | none => exact hbuilt.trans (hran hends)
      | some setup =>
        exact (hbuilt.trans (hran hends)).trans (Log.Setup.kept_deliver setup _ _)

end Operates

/-- A directory with one collection of one item. -/
def stockroom : FileTree :=
  ⟨[(["data"], .directory),
    (["data", "items.ndjson"], .file (.text "\x7b\"_id\":\"lamp\"\x7d\n"))]⟩

/-- Adds an item whose identifier is in use. -/
def addLamp : List String :=
  ["--uri=file:///data", "--collection=items", "insert", "--doc=\x7b\"_id\":\"lamp\"\x7d"]

end CommandLine

end DocQuery
