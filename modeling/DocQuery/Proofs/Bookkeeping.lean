import DocQuery.Proofs.Histories

/-
  The books of a store: how many connections were opened and closed, and which of them can be used.
  `bookkeeping` says of every history that the counts are those of the history, that no connection
  is closed twice, and what a close means: through the connection nothing is done from then on, and
  past it everything happens as if it were open.

  The last is shown by opening the connection again in every state after the close. An action that
  does not go through it cannot tell the difference (`act_reopened`), and one that does has done
  nothing.
-/

namespace DocQuery

/-! ## Lists with one element changed -/

theorem modify_append {α : Type} {n : Nat} {l : List α} (hn : n < l.length) (f : α → α)
    (l' : List α) : (l ++ l').modify n f = l.modify n f ++ l' := by
  refine List.ext_getElem? fun i => ?_
  rw [List.getElem?_modify, List.getElem?_append, List.getElem?_append, List.length_modify]
  by_cases hi : i < l.length
  · rw [if_pos hi, if_pos hi, List.getElem?_modify]
  · have hne : n ≠ i := by omega
    simp [hi, hne]

theorem modify_set {α : Type} {n k : Nat} (hk : k ≠ n) (f : α → α) (x : α) (l : List α) :
    (l.set k x).modify n f = (l.modify n f).set k x := by
  refine List.ext_getElem? fun i => ?_
  rw [List.getElem?_modify, List.getElem?_set, List.getElem?_set, List.length_modify,
    List.getElem?_modify]
  by_cases hi : k = i
  · subst hi
    have hne : n ≠ k := hk.symm
    simp [hne]
  · rw [if_neg hi, if_neg hi]

theorem modify_set_self {α : Type} {n : Nat} {x y : α} {l : List α} (hn : l[n]? = some y)
    {f : α → α} (hf : f x = y) : (l.set n x).modify n f = l := by
  refine List.ext_getElem? fun i => ?_
  rw [List.getElem?_modify, List.getElem?_set]
  by_cases hi : n = i
  · subst hi
    rw [if_pos rfl, if_pos (List.getElem?_eq_some_iff.mp hn).1, hn, ← hf]
    simp
  · rw [if_neg hi]
    simp [hi]

namespace Store

/-! ## Undoing a close -/

/-- A store in which a connection that has been closed is open again. -/
def reopened (n : Nat) (s : Store) : Store :=
  { s with
    connections := s.connections.modify n fun c => { c with closed := false }
    closed := s.closed - 1 }

theorem withId_reopened (n : Nat) (s : Store) (d : Document) :
    (s.reopened n).withId d = ((s.withId d).1.reopened n, (s.withId d).2) := by
  unfold withId
  split
  · rfl
  · rfl

theorem ensureDatabase_reopened (n : Nat) (s : Store) (database : String) :
    (s.reopened n).ensureDatabase database = (s.ensureDatabase database).reopened n := by
  cases hdb : Keyed.get? s.databases database with
  | some db => simp only [ensureDatabase, reopened, hdb]
  | none => simp only [ensureDatabase, reopened, hdb]

theorem foldl_withId_reopened (n : Nat) (s : Store) (docs out : List Document) :
    docs.foldl (fun (s, out) d => let (s, d) := s.withId d; (s, out ++ [d])) (s.reopened n, out) =
      let p := docs.foldl (fun (s, out) d => let (s, d) := s.withId d; (s, out ++ [d])) (s, out)
      (p.1.reopened n, p.2) := by
  induction docs generalizing s out with
  | nil => rfl
  | cons d docs ih =>
    rw [List.foldl_cons, List.foldl_cons]
    dsimp only
    rw [withId_reopened]
    exact ih _ _

theorem withIds_reopened (n : Nat) (s : Store) (docs : List Document) :
    (s.reopened n).withIds docs = ((s.withIds docs).1.reopened n, (s.withIds docs).2) :=
  foldl_withId_reopened n s docs []

theorem seed_reopened (n : Nat) (s : Store) (database collection : String)
    (docs : List Document) :
    (s.reopened n).seed database collection docs = (s.seed database collection docs).reopened n := by
  rw [seed_eq, seed_eq, seeded, seeded, ensureDatabase_reopened, withIds_reopened]
  rfl

end Store

namespace Engine

/-! ## What an event does to the connections -/

/-- The connection that an event opens. -/
def Event.opened? : Event → Option Nat
  | acted (.connect _) (.ok (.connection n)) => some n
  | _ => none

/-- The connection that an event closes. -/
def Event.closed? : Event → Option Nat
  | acted (.close n) (.ok _) => some n
  | _ => none

/-- The connection that an event goes through. -/
def Event.through? : Event → Option Nat
  | acted a _ => a.connection?
  | _ => none

/-- Whether a connection has been closed. -/
def IsClosed (g : Engine) (n : Nat) : Prop := ∃ database, g.connection? n = some ⟨database, true⟩

theorem IsClosed.not_isOpen {g : Engine} {n : Nat} (h : g.IsClosed n) : ¬ g.IsOpen n := by
  obtain ⟨database, hclosed⟩ := h
  rintro ⟨database', hopen⟩
  cases hclosed.symm.trans hopen

theorem IsClosed.lt {g : Engine} {n : Nat} (h : g.IsClosed n) :
    n < g.store.connections.length := by
  obtain ⟨database, hclosed⟩ := h
  exact (List.getElem?_eq_some_iff.mp hclosed).1

theorem isOpen_iff {g : Engine} {n : Nat} :
    g.IsOpen n ↔ n < g.store.connections.length ∧ ¬ g.IsClosed n := by
  constructor
  · rintro ⟨database, hopen⟩
    refine ⟨(List.getElem?_eq_some_iff.mp hopen).1, ?_⟩
    intro hclosed
    exact hclosed.not_isOpen ⟨database, hopen⟩
  · rintro ⟨hn, hnot⟩
    have hconn : g.connection? n = some g.store.connections[n] := List.getElem?_eq_getElem hn
    rcases hc : g.store.connections[n] with ⟨database, closed⟩
    rw [hc] at hconn
    cases closed with
    | false => exact ⟨database, hconn⟩
    | true => exact absurd ⟨database, hconn⟩ hnot

/-- All that an event can do to the connections and their counts: open one, close an open one, or
leave them. -/
inductive Books (g : Engine) (e : Event) (g' : Engine) : Prop where
  | opens {name : String} (hopened : e.opened? = some g.store.connections.length)
      (hclosed : e.closed? = none)
      (hconns : g'.store.connections = g.store.connections ++ [⟨name, false⟩])
      (hstats : g'.store.stats = ⟨g.store.opened + 1, g.store.closed⟩)
  | closes {n : Nat} {database : String} (hopened : e.opened? = none) (hclosed : e.closed? = some n)
      (hopen : g.connection? n = some ⟨database, false⟩)
      (hconns : g'.store.connections = g.store.connections.set n ⟨database, true⟩)
      (hstats : g'.store.stats = ⟨g.store.opened, g.store.closed + 1⟩)
  | keeps (hopened : e.opened? = none) (hclosed : e.closed? = none)
      (hconns : g'.store.connections = g.store.connections)
      (hstats : g'.store.stats = g.store.stats)

/-- An action does one of these things if the file system does what is asked of it. -/
theorem books_act (g : Engine) (a : Action) : Books g (.acted a (g.act a).1) (g.act a).2 := by
  cases a with
  | connect uri =>
    have hend := g.connecting uri
    show Books g (.acted (.connect uri) ((g.connect uri).1.map .connection)) (g.connect uri).2
    generalize (g.connect uri).1 = res, (g.connect uri).2 = g' at hend ⊢
    cases hend with
    | refused hwhy hsame => exact .keeps rfl rfl hsame.connections hsame.stats
    | opened db hopened => exact .opens rfl rfl hopened.connections hopened.stats
  | collection conn name =>
    show Books g _ (g.collection conn name).2
    rcases g.collection_cases conn name with ⟨-, hend⟩ | ⟨-, -, hend⟩ | ⟨-, -, hend⟩
    all_goals rw [hend]
    all_goals exact .keeps rfl rfl rfl rfl
  | request h r =>
    obtain ⟨hconns, hstats⟩ := g.perform_keepsConnections h r
    exact .keeps rfl rfl hconns hstats
  | close n =>
    show Books g (.acted (.close n) ((g.close n).1.map fun _ => .closed)) (g.close n).2
    unfold close
    split
    · next database hopen => exact .closes rfl rfl hopen rfl rfl
    · exact .keeps rfl rfl rfl rfl

/-- Every event does one of these things. -/
theorem Happens.books {g g' : Engine} {e : Event} (h : Happens g e g') : Books g e g' := by
  cases h with
  | @acted a outcome g' hends =>
    cases hends with
    | done => exact g.books_act a
    | disturbed during left hfails =>
      have hsame := (fails_and_unchanged hfails).2
      have hnone : ∀ e, Event.opened? (.acted a (.error e)) = none ∧
          Event.closed? (.acted a (.error e)) = none := by
        intro e
        cases a <;> exact ⟨rfl, rfl⟩
      exact .keeps (hnone _).1 (hnone _).2 hsame.connections hsame.stats
  | seeded database collection docs =>
    exact .keeps rfl rfl (Store.seed_connections ..) (Store.seed_stats ..)
  | dumped database collection =>
    exact .keeps rfl rfl (Store.ensureDatabase_connections ..) (Store.ensureDatabase_stats ..)
  | others files => exact .keeps rfl rfl rfl rfl

section Books

variable {g g' : Engine} {e : Event} (h : Books g e g')
include h

theorem Books.opened_eq : g'.store.opened = g.store.opened + e.opened?.toList.length := by
  cases h with
  | opens hopened _ _ hstats =>
    rw [hopened]
    exact congrArg Stats.opened hstats
  | closes hopened _ _ _ hstats =>
    rw [hopened]
    exact congrArg Stats.opened hstats
  | keeps hopened _ _ hstats =>
    rw [hopened]
    exact congrArg Stats.opened hstats

theorem Books.closed_eq : g'.store.closed = g.store.closed + e.closed?.toList.length := by
  cases h with
  | opens _ hclosed _ hstats =>
    rw [hclosed]
    exact congrArg Stats.closed hstats
  | closes _ hclosed _ _ hstats =>
    rw [hclosed]
    exact congrArg Stats.closed hstats
  | keeps _ hclosed _ hstats =>
    rw [hclosed]
    exact congrArg Stats.closed hstats

theorem Books.length_eq :
    g'.store.connections.length = g.store.connections.length + e.opened?.toList.length := by
  cases h with
  | opens hopened _ hconns => rw [hopened, hconns, List.length_append]; rfl
  | closes hopened _ _ hconns => rw [hopened, hconns, List.length_set]; rfl
  | keeps hopened _ hconns => rw [hopened, hconns]; rfl

theorem Books.opened?_eq {n : Nat} (hn : e.opened? = some n) :
    n = g.store.connections.length := by
  cases h with
  | opens hopened => exact Option.some.inj (hn.symm.trans hopened)
  | closes hopened => cases hopened.symm.trans hn
  | keeps hopened => cases hopened.symm.trans hn

theorem Books.not_isClosed {n : Nat} (hn : e.closed? = some n) : ¬ g.IsClosed n := by
  cases h with
  | opens _ hclosed => cases hclosed.symm.trans hn
  | closes _ hclosed hopen =>
    cases hclosed.symm.trans hn
    rintro ⟨database, hshut⟩
    cases hshut.symm.trans hopen
  | keeps _ hclosed => cases hclosed.symm.trans hn

theorem Books.isClosed_iff (n : Nat) : g'.IsClosed n ↔ g.IsClosed n ∨ e.closed? = some n := by
  unfold IsClosed connection?
  cases h with
  | @opens name _ hclosed hconns =>
    rw [hconns, hclosed]
    rw [List.getElem?_append]
    split
    · simp
    · next hlen =>
      rw [List.getElem?_eq_none (Nat.not_lt.mp hlen)]
      simp [List.getElem?_singleton]
  | @closes k database _ hclosed hopen hconns =>
    rw [hconns, hclosed, List.getElem?_set]
    have hk := (List.getElem?_eq_some_iff.mp hopen).1
    by_cases hkn : k = n
    · subst hkn
      simp [hk]
    · simp [hkn]
  | keeps _ hclosed hconns =>
    rw [hconns, hclosed]
    simp

end Books

/-! ## The counts of a history -/

/-- The connections that a history opens, in order. -/
def opens (history : List Moment) : List Nat := history.filterMap fun m => m.event.opened?

/-- The connections that a history closes, in order. -/
def closes (history : List Moment) : List Nat := history.filterMap fun m => m.event.closed?

theorem opens_cons (m : Moment) (history : List Moment) :
    opens (m :: history) = m.event.opened?.toList ++ opens history := by
  unfold opens
  rw [List.filterMap_cons]
  cases m.event.opened? <;> rfl

theorem closes_cons (m : Moment) (history : List Moment) :
    closes (m :: history) = m.event.closed?.toList ++ closes history := by
  unfold closes
  rw [List.filterMap_cons]
  cases m.event.closed? <;> rfl

/-- What the counts and the connections of a store say of the history between two states. -/
structure Ledger (g : Engine) (history : List Moment) (g' : Engine) : Prop where
  length : g'.store.connections.length = g.store.connections.length + (opens history).length
  numbers : opens history = List.range' g.store.connections.length (opens history).length
  opened : g'.store.opened = g.store.opened + (opens history).length
  closed : g'.store.closed = g.store.closed + (closes history).length
  once : (closes history).Nodup
  wereNot : ∀ n ∈ closes history, ¬ g.IsClosed n
  areClosed : ∀ n, g'.IsClosed n ↔ g.IsClosed n ∨ n ∈ closes history

/-- The history is taken apart at its front, so that what is closed later is still open before. -/
theorem History.ledger {g g' : Engine} {history : List Moment} (h : History g history g') :
    Ledger g history g' := by
  induction h with
  | start g => exact ⟨rfl, rfl, rfl, rfl, .nil, nofun, fun n => by simp [closes]⟩
  | @next g g₁ g' e later hfirst _ ih =>
    have hbooks := hfirst.books
    have hopens : opens (⟨g, e, g₁⟩ :: later) = e.opened?.toList ++ opens later := opens_cons _ _
    have hcloses : closes (⟨g, e, g₁⟩ :: later) = e.closed?.toList ++ closes later :=
      closes_cons _ _
    have hlength := hbooks.length_eq
    refine ⟨?_, ?_, ?_, ?_, ?_, ?_, ?_⟩
    · rw [hopens, List.length_append, ih.length, hlength, Nat.add_assoc]
    · rw [hopens, List.length_append, ih.numbers, List.length_range']
      cases hn : e.opened? with
      | none =>
        rw [hn] at hlength
        rw [hlength]
        simp
      | some n =>
        rw [hn] at hlength
        rw [hbooks.opened?_eq hn, hlength]
        rw [Option.toList_some, List.length_singleton, Nat.add_comm 1]
        rfl
    · rw [hopens, List.length_append, ih.opened, hbooks.opened_eq, Nat.add_assoc]
    · rw [hcloses, List.length_append, ih.closed, hbooks.closed_eq, Nat.add_assoc]
    · rw [hcloses]
      cases hn : e.closed? with
      | none => exact ih.once
      | some n =>
        -- it is closed now, and what is closed later is open now
        refine List.nodup_cons.mpr ⟨fun hmem => ?_, ih.once⟩
        exact ih.wereNot n hmem ((hbooks.isClosed_iff n).mpr (.inr hn))
    · intro n hn
      rw [hcloses, List.mem_append, Option.mem_toList] at hn
      rcases hn with hn | hn
      · exact hbooks.not_isClosed hn
      · exact fun hshut => ih.wereNot n hn ((hbooks.isClosed_iff n).mpr (.inl hshut))
    · intro n
      rw [ih.areClosed, hbooks.isClosed_iff, hcloses, List.mem_append, Option.mem_toList, or_assoc]

theorem countP_mem_of_nodup {l l' : List Nat} (hl : l.Nodup) (hl' : l'.Nodup)
    (hsub : ∀ n ∈ l', n ∈ l) : l.countP (fun n => n ∈ l') = l'.length := by
  rw [List.countP_eq_length_filter]
  refine List.Perm.length_eq ((List.perm_ext_iff_of_nodup (hl.filter _) hl').mpr ?_)
  intro n
  rw [List.mem_filter, decide_eq_true_iff]
  exact ⟨fun hn => hn.2, fun hn => ⟨hsub n hn, hn⟩⟩

/-- A store's books: the counts of connections are those of its history. -/
structure Balanced (history : List Moment) (g : Engine) : Prop where
  /-- Connections are numbered in the order in which they were opened. -/
  numbers : opens history = List.range (opens history).length
  opened : g.store.stats.opened = (opens history).length
  closed : g.store.stats.closed = (closes history).length
  /-- No connection is closed twice, and only one that was opened. -/
  once : (closes history).Nodup
  closesOpened : ∀ n ∈ closes history, n ∈ opens history
  closed_le : g.store.stats.closed ≤ g.store.stats.opened
  /-- Those that were opened and not closed are open, and are counted so. -/
  isOpen : ∀ n, g.IsOpen n ↔ n ∈ opens history ∧ n ∉ closes history
  stillOpen : g.store.stats.stillOpen = (opens history).countP fun n => n ∉ closes history

theorem History.balanced {files : FileTree} {workingDirectory : Path} {ids : Nat → ObjectId}
    {g : Engine} {history : List Moment} (h : History (fresh files workingDirectory ids) history g) :
    Balanced history g := by
  have hledger := h.ledger
  have hopens : opens history = List.range (opens history).length := by
    rw [List.range_eq_range']
    exact hledger.numbers
  have hopened : g.store.opened = (opens history).length := by
    rw [hledger.opened]
    exact Nat.zero_add _
  have hclosed : g.store.closed = (closes history).length := by
    rw [hledger.closed]
    exact Nat.zero_add _
  have hsub : ∀ n ∈ closes history, n ∈ opens history := by
    intro n hn
    obtain ⟨database, hshut⟩ := (hledger.areClosed n).mpr (.inr hn)
    have hlt := (List.getElem?_eq_some_iff.mp hshut).1
    rw [hopens, List.mem_range]
    rw [hledger.length] at hlt
    exact lt_of_lt_of_eq hlt (Nat.zero_add _)
  have hnodup : (opens history).Nodup := hopens ▸ List.nodup_range
  have hshut : (opens history).countP (fun n => n ∈ closes history) = (closes history).length :=
    countP_mem_of_nodup hnodup hledger.once hsub
  have hle : (closes history).length ≤ (opens history).length := by
    rw [← hshut]
    exact List.countP_le_length
  refine ⟨hopens, hopened, hclosed, hledger.once, hsub, ?_, ?_, ?_⟩
  · show g.store.closed ≤ g.store.opened
    rwa [hopened, hclosed]
  · intro n
    have hnever : ¬ (fresh files workingDirectory ids).IsClosed n := by
      rintro ⟨database, hnone⟩
      cases hnone
    have hshut : g.IsClosed n ↔ n ∈ closes history :=
      (hledger.areClosed n).trans (or_iff_right hnever)
    have hlength : g.store.connections.length = (opens history).length :=
      hledger.length.trans (Nat.zero_add _)
    rw [isOpen_iff, hshut, hlength, hopens, List.mem_range, List.length_range]
  · show g.store.opened - g.store.closed = _
    have hsplit := List.length_eq_countP_add_countP (l := opens history)
      fun n => decide (n ∈ closes history)
    rw [hshut] at hsplit
    rw [hopened, hclosed, hsplit, Nat.add_sub_cancel_left]
    simp

/-! ## Through a closed connection -/

/-- A closed connection ends every action. -/
theorem act_closed {g : Engine} {a : Action} {n : Nat} (ha : a.connection? = some n)
    (hclosed : ¬ g.IsOpen n) : g.act a = (.error .closed, g) := by
  cases a with
  | connect uri => cases ha
  | collection conn name =>
    obtain rfl : conn = n := Option.some.inj ha
    rcases g.collection_cases conn name with ⟨-, hend⟩ | ⟨hopen, -⟩ | ⟨hopen, -⟩
    · rw [act, hend]
      rfl
    · exact absurd hopen hclosed
    · exact absurd hopen hclosed
  | request h r =>
    cases ha
    rw [act, perform_closed (databaseOf_eq_closed.mpr hclosed)]
    rfl
  | close conn =>
    obtain rfl : conn = n := Option.some.inj ha
    rcases g.close_cases conn with ⟨-, hend⟩ | ⟨hopen, -⟩
    · rw [act, hend]
      rfl
    · exact absurd hopen hclosed

/-- It does so however the action ends, and only others can have touched the files. -/
theorem Ends.of_closed {g g' : Engine} {a : Action} {outcome : Except StoreError Answer} {n : Nat}
    (h : Ends g a outcome g') (ha : a.connection? = some n) (hclosed : ¬ g.IsOpen n) :
    outcome = .error .closed ∧ g' = { g with files := g'.files } := by
  cases h with
  | done =>
    rw [act_closed ha hclosed]
    exact ⟨rfl, rfl⟩
  | disturbed during left hfails =>
    have hclosed' : ¬ IsOpen { g with files := during } n := hclosed
    rw [act_closed ha hclosed'] at hfails ⊢
    cases hfails
    exact ⟨rfl, rfl⟩

/-! ## Without the close -/

/-- A state in which a connection that has been closed is open again. -/
def reopened (n : Nat) (g : Engine) : Engine := { g with store := g.store.reopened n }

/-- An event, unless it goes through a connection. -/
def Event.without (n : Nat) (e : Event) : Event := if e.through? = some n then .others else e

/-- A moment with a connection open, and without what is asked through it. -/
def Moment.reopened (n : Nat) (m : Moment) : Moment :=
  ⟨m.before.reopened n, m.event.without n, m.after.reopened n⟩

section Other

variable {g : Engine} {n k : Nat} (hk : k ≠ n)
include hk

theorem connection?_reopened : (g.reopened n).connection? k = g.connection? k :=
  List.getElem?_modify_ne _ _ hk.symm

theorem databaseOf_reopened {h : Handle} (hh : h.connection = k) :
    (g.reopened n).databaseOf h = g.databaseOf h := by
  unfold databaseOf
  rw [hh, connection?_reopened hk]

end Other

theorem commit_reopened {α : Type} (n : Nat) (database collection : String)
    (stage : List Document → Except StoreError (α × List Document)) (g : Engine) :
    (g.reopened n).commit database collection stage =
      ((g.commit database collection stage).1, (g.commit database collection stage).2.reopened n) := by
  have hdocs : (g.reopened n).store.documents database collection =
      g.store.documents database collection := rfl
  have hsave : ∀ docs, (g.reopened n).save database collection docs =
      g.save database collection docs := fun _ => rfl
  rw [commit_eq, commit_eq, hdocs]
  rcases stage (g.store.documents database collection) with e | ⟨a, docs⟩
  · rfl
  · dsimp only
    rw [hsave]
    rcases g.save database collection docs with ⟨files, e | ⟨⟩⟩
    · rfl
    · rfl

theorem perform_reopened {g : Engine} {h : Handle} {n : Nat} (hh : h.connection ≠ n) (r : Request) :
    (g.reopened n).perform h r = ((g.perform h r).1, (g.perform h r).2.reopened n) := by
  have hbase := databaseOf_reopened (g := g) hh (h := h) rfl
  have hprepare : ∀ filter, (g.reopened n).prepare h filter = g.prepare h filter := by
    intro filter
    unfold prepare
    rw [hbase]
  cases r with
  | find filter =>
    simp only [perform, find, hprepare]
    rcases g.prepare h filter with e | ⟨database, f⟩
    · rfl
    · rfl
  | remove filter =>
    simp only [perform, remove, hprepare, commit_reopened]
    rcases g.prepare h filter with e | ⟨database, f⟩
    · rfl
    · dsimp only
      rcases g.commit database h.collection (removeStage f) with ⟨e | k, g'⟩
      · rfl
      · rfl
  | update filter spec multi =>
    simp only [perform, Engine.update, hprepare, commit_reopened]
    rcases g.prepare h filter with e | ⟨database, f⟩
    · rfl
    · dsimp only
      rcases g.commit database h.collection (updateStage f spec multi) with ⟨e | ⟨k, l⟩, g'⟩
      · rfl
      · rfl
  | insert d =>
    simp only [perform, insert, hbase]
    rcases g.databaseOf h with e | database
    · rfl
    · have hid : (g.reopened n).store.withId d = ((g.store.withId d).1.reopened n,
          (g.store.withId d).2) := g.store.withId_reopened n d
      dsimp only
      rw [hid]
      rcases g.store.withId d with ⟨s, d'⟩
      have hcommit := commit_reopened n database h.collection
        (insertStage d' ((Keyed.get? d' "_id").getD .null)) { g with store := s }
      have hstate : { g.reopened n with store := s.reopened n } =
        reopened n { g with store := s } := rfl
      dsimp only
      rw [hstate, hcommit]
      rcases commit database h.collection
        (insertStage d' ((Keyed.get? d' "_id").getD .null)) { g with store := s } with ⟨e | ⟨⟩, g'⟩
      · rfl
      · rfl

theorem openConnection_reopened {g : Engine} {n : Nat} (hn : n < g.store.connections.length)
    (database uri : String) :
    openConnection database uri (g.reopened n) =
      ((openConnection database uri g).1, (openConnection database uri g).2.reopened n) := by
  have hlength : (g.reopened n).store.connections.length = g.store.connections.length :=
    List.length_modify ..
  have happend : (g.reopened n).store.connections ++ [Connection.mk database false] =
      (g.store.connections ++ [Connection.mk database false]).modify n fun c =>
        { c with closed := false } := (modify_append hn _ _).symm
  unfold openConnection
  dsimp only
  rw [hlength, happend]
  rfl

theorem connect_reopened {g : Engine} {n : Nat} (hn : n < g.store.connections.length)
    (uri : String) :
    (g.reopened n).connect uri = ((g.connect uri).1, (g.connect uri).2.reopened n) := by
  unfold connect
  rcases Address.parse uri with e | ⟨name | text⟩
  · rfl
  · have hensured : (g.reopened n).store.ensureDatabase name =
        (g.store.ensureDatabase name).reopened n := g.store.ensureDatabase_reopened n name
    have hn' : n < (g.store.ensureDatabase name).connections.length := by
      rwa [Store.ensureDatabase_connections]
    dsimp only
    rw [hensured]
    exact openConnection_reopened (g := { g with store := g.store.ensureDatabase name }) hn' name uri
  · have hmake : (g.reopened n).files.makeDirectories (g.reopened n).workingDirectory text =
        g.files.makeDirectories g.workingDirectory text := rfl
    have hget : ∀ key, Keyed.get? (g.reopened n).store.databases key =
        Keyed.get? g.store.databases key := fun _ => rfl
    dsimp only
    rw [hmake]
    rcases g.files.makeDirectories g.workingDirectory text with ⟨files, e | dir⟩
    · rfl
    · dsimp only
      rw [hget]
      cases Keyed.get? g.store.databases (directoryKey dir) with
      | some db => exact openConnection_reopened (g := { g with files := files }) hn _ _
      | none =>
        dsimp only
        rcases (CollectionFile.loadDirectory files dir).result with e | collections
        · rfl
        · let log := (CollectionFile.loadDirectory files dir).log.reverse ++ g.log
          let databases := Keyed.put g.store.databases (directoryKey dir) ⟨some dir, collections⟩
          exact openConnection_reopened
            (g := { g with
              files := files, log := log, store := { g.store with databases := databases } })
            hn _ _

theorem close_reopened {g : Engine} {n k : Nat} (hk : k ≠ n) (hcount : 0 < g.store.closed) :
    (g.reopened n).close k = ((g.close k).1, (g.close k).2.reopened n) := by
  unfold close
  rw [connection?_reopened hk]
  split
  · next database hopen =>
    have hset : (g.reopened n).store.connections.set k ⟨database, true⟩ =
        (g.store.connections.set k ⟨database, true⟩).modify n fun c : Connection =>
          { c with closed := false } := (modify_set hk _ _ _).symm
    have hclosed : (g.reopened n).store.closed + 1 = g.store.closed + 1 - 1 :=
      Nat.sub_add_cancel hcount
    dsimp only
    rw [hset, hclosed]
    rfl
  · rfl

/-- An action that does not go through a closed connection is answered as if it were open. -/
theorem act_reopened {g : Engine} {n : Nat} (hn : n < g.store.connections.length)
    (hcount : 0 < g.store.closed) {a : Action} (ha : a.connection? ≠ some n) :
    (g.reopened n).act a = ((g.act a).1, (g.act a).2.reopened n) := by
  cases a with
  | connect uri => rw [act, connect_reopened hn]; rfl
  | collection k name =>
    have hk : k ≠ n := fun hk => ha (congrArg some hk)
    rw [act, act, collection, collection, connection?_reopened hk]
    rcases g.connection? k with - | ⟨database, closed⟩
    · rfl
    · cases closed with
      | true => rfl
      | false =>
        dsimp only
        cases validCollectionName name with
        | true => rfl
        | false => rfl
  | request h r =>
    have hh : h.connection ≠ n := fun hh => ha (congrArg some hh)
    rw [act, perform_reopened hh]
    rfl
  | close k =>
    have hk : k ≠ n := fun hk => ha (congrArg some hk)
    rw [act, close_reopened hk hcount]
    rfl

theorem Ends.reopened {g g' : Engine} {a : Action} {outcome : Except StoreError Answer} {n : Nat}
    (h : Ends g a outcome g') (hclosed : g.IsClosed n) (hcount : 0 < g.store.closed)
    (ha : a.connection? ≠ some n) : Ends (g.reopened n) a outcome (g'.reopened n) := by
  cases h with
  | done =>
    have hdone := Ends.done (g := g.reopened n) a
    rw [act_reopened hclosed.lt hcount ha] at hdone
    exact hdone
  | disturbed during left hfails hleft =>
    have hact := act_reopened (g := { g with files := during }) hclosed.lt hcount ha
    have htemporary : (g.reopened n).temporary? a = g.temporary? a := by
      cases a with
      | request h r =>
        have hbase := databaseOf_reopened (g := g) (h := h) (fun hh => ha (congrArg some hh)) rfl
        unfold temporary?
        dsimp only
        rw [hbase]
        rfl
      | connect | collection | close => rfl
    have hend := Ends.disturbed (g := g.reopened n) (a := a) during left
      ((congrArg Prod.fst hact).trans hfails) (by rw [htemporary]; exact hleft)
    have hstate : act a { g.reopened n with files := during } = _ := hact
    rw [hstate] at hend
    exact hend

theorem Happens.reopened {g g' : Engine} {e : Event} {n : Nat} (h : Happens g e g')
    (hclosed : g.IsClosed n) (hcount : 0 < g.store.closed) :
    Happens (g.reopened n) (e.without n) (g'.reopened n) := by
  cases h with
  | @acted a outcome g' hends =>
    by_cases ha : a.connection? = some n
    · obtain ⟨-, hstate⟩ := hends.of_closed ha hclosed.not_isOpen
      have hothers : Event.without n (.acted a outcome) = .others := if_pos ha
      rw [hothers, hstate]
      exact .others g'.files
    · have hsame : Event.without n (.acted a outcome) = .acted a outcome := if_neg ha
      rw [hsame]
      exact .acted (hends.reopened hclosed hcount ha)
  | seeded database collection docs =>
    have hseed := Happens.seeded (g := g.reopened n) database collection docs
    rw [show (g.reopened n).store.seed database collection docs = _ from
      Store.seed_reopened n g.store database collection docs] at hseed
    exact hseed
  | dumped database collection =>
    have hdump := Happens.dumped (g := g.reopened n) database collection
    rw [show ((g.reopened n).store.dump database collection).1 = _ from
      Store.ensureDatabase_reopened n g.store database] at hdump
    exact hdump
  | others files => exact .others files

theorem History.reopened {g g' : Engine} {history : List Moment} {n : Nat}
    (h : History g history g') (hclosed : g.IsClosed n) (hcount : 0 < g.store.closed) :
    History (g.reopened n) (history.map (Moment.reopened n)) (g'.reopened n) := by
  induction h with
  | start => exact .start _
  | @next g g₁ g' e later hfirst _ ih =>
    have hbooks := hfirst.books
    refine .next (hfirst.reopened hclosed hcount) (ih ?_ ?_)
    · exact (hbooks.isClosed_iff n).mpr (.inl hclosed)
    · rw [hbooks.closed_eq]
      exact Nat.lt_of_lt_of_le hcount (Nat.le_add_right _ _)

theorem Event.closed?_eq_some {e : Event} {n : Nat} :
    e.closed? = some n ↔ ∃ answer, e = .acted (.close n) (.ok answer) := by
  constructor
  · intro hn
    unfold closed? at hn
    split at hn
    · next answer =>
      cases hn
      exact ⟨answer, rfl⟩
    · cases hn
  · rintro ⟨answer, rfl⟩
    rfl

/-- Opening a connection again undoes the close, but for a note. -/
theorem Happens.reopened_of_close {g g' : Engine} {n : Nat} {answer : Answer}
    (h : Happens g (.acted (.close n) (.ok answer)) g') :
    ∃ record, g'.reopened n = { g with log := record :: g.log } := by
  cases h with
  | acted hends =>
    generalize hout : Except.ok answer = outcome at hends
    cases hends with
    | disturbed => cases hout
    | done =>
      dsimp only [act, close] at hout ⊢
      split at hout
      · next database hopen =>
        have hset : (g.store.connections.set n ⟨database, true⟩).modify n
            (fun c => { c with closed := false }) = g.store.connections :=
          modify_set_self hopen rfl
        refine ⟨⟨.debug, Log.storeTarget, "connection #" ++ toString n ++ " closed"⟩, ?_⟩
        simp only [Engine.reopened, Store.reopened, debug, note, hset]
        rfl
      · cases hout

/-- What it means for a connection that it has been closed. -/
structure Retired (n : Nat) (m : Moment) (later : List Moment) (g : Engine) : Prop where
  /-- Whatever is asked through it is refused and changes nothing: to close it, to give a
  collection, and every request through every handle obtained from it. -/
  refused : ∀ m' ∈ later, ∀ a outcome, m'.event = .acted a outcome → a.connection? = some n →
    outcome = .error .closed ∧ Unchanged m'.before m'.after
  /-- With the connection open again all is as it was before the close, but for a note. -/
  undone : ∃ record, m.after.reopened n = { m.before with log := record :: m.before.log }
  /-- All that has happened past the connection happens just so if it stays open. -/
  others : History (m.after.reopened n) (later.map (Moment.reopened n)) (g.reopened n)
  /-- Every further action past the connection is answered as if it had stayed open. -/
  next : ∀ a, a.connection? ≠ some n →
    (g.reopened n).act a = ((g.act a).1, (g.act a).2.reopened n)

theorem History.retired {g₀ g : Engine} {before later : List Moment} {m : Moment} {n : Nat}
    {answer : Answer} (h : History g₀ (before ++ m :: later) g)
    (hm : m.event = .acted (.close n) (.ok answer)) : Retired n m later g := by
  obtain ⟨hbefore, hhappens, hlater⟩ := h.at_moment
  have hbooks := hhappens.books
  have hclosed? : m.event.closed? = some n := Event.closed?_eq_some.mpr ⟨answer, hm⟩
  have hclosed : m.after.IsClosed n := (hbooks.isClosed_iff n).mpr (.inr hclosed?)
  have hcount : 0 < m.after.store.closed := by
    rw [hbooks.closed_eq, hclosed?]
    exact Nat.succ_pos _
  have hend : g.IsClosed n := (hlater.ledger.areClosed n).mpr (.inl hclosed)
  have hendCount : 0 < g.store.closed := by
    rw [hlater.ledger.closed]
    exact Nat.lt_of_lt_of_le hcount (Nat.le_add_right _ _)
  refine ⟨?_, (hm ▸ hhappens).reopened_of_close, hlater.reopened hclosed hcount,
    fun a => act_reopened hend.lt hendCount⟩
  intro m' hm' a outcome hevent ha
  obtain ⟨between, rest, rfl⟩ := List.append_of_mem hm'
  obtain ⟨hbetween, hhappens', -⟩ := hlater.at_moment
  have hstill : m'.before.IsClosed n := (hbetween.ledger.areClosed n).mpr (.inl hclosed)
  rw [hevent] at hhappens'
  cases hhappens' with
  | acted hends =>
    obtain ⟨hrefused, hstate⟩ := hends.of_closed ha hstill.not_isOpen
    rw [hstate]
    exact ⟨hrefused, rfl, rfl, rfl, rfl⟩

/-- The moments of actions that are carried out one after the other. -/
def moments (g : Engine) : List Action → List Moment
  | [] => []
  | a :: actions => ⟨g, .acted a (g.act a).1, (g.act a).2⟩ :: moments (g.act a).2 actions

theorem history_moments (g : Engine) (actions : List Action) :
    History g (moments g actions) (g.after actions) := by
  induction actions generalizing g with
  | nil => exact .start g
  | cons a actions ih => exact .next (.acted (.done a)) (ih _)

/-- The books of a store are balanced whatever happens to it, and a connection that has been closed
is of no use from then on and of no concern to any other. -/
theorem bookkeeping {files : FileTree} {workingDirectory : Path} {ids : Nat → ObjectId} {g : Engine}
    {history : List Moment} (h : History (fresh files workingDirectory ids) history g) :
    Balanced history g ∧ ∀ before m later n answer, history = before ++ m :: later →
      m.event = .acted (.close n) (.ok answer) → Retired n m later g := by
  refine ⟨h.balanced, ?_⟩
  rintro before m later n answer rfl hm
  exact h.retired hm

/-- Two connections, of which the first is closed and used once more. -/
def visits : List Action :=
  [.connect "memory://shop", .connect "memory://shop", .close 0,
    .request ⟨0, "items"⟩ (.insert [("_id", .int32 1)]), .request ⟨1, "items"⟩ (.find [])]

theorem bookkeeping_visits :
    ((fresh .empty [] (.numbered 0)).after visits).store.stats.stillOpen = 1 ∧
    ∃ m later, later.map Moment.event =
        [.acted (.request ⟨0, "items"⟩ (.insert [("_id", .int32 1)])) (.error .closed),
          .acted (.request ⟨1, "items"⟩ (.find [])) (.ok (.report (.documents [])))] ∧
      Retired 0 m later ((fresh .empty [] (.numbered 0)).after visits) := by
  obtain ⟨hbalanced, hretired⟩ :=
    bookkeeping (history_moments (fresh .empty [] (.numbered 0)) visits)
  exact ⟨hbalanced.stillOpen.trans (by rfl), _, _, by rfl,
    hretired [_, _] _ _ 0 .closed rfl (by rfl)⟩

end Engine
end DocQuery
