import DocQuery.Driver.Recording
import DocQuery.Proofs.Runs

/-
  The connections of a run. Whatever the steps are and whichever calls fail, a run holds at most one
  connection at a time, closes every connection it obtained exactly once, and closes the last one
  only after the outcome has been handed over.

  Records of calls are read with the newest call first, so the moments of a run are the suffixes of
  its record. `Orderly calls held` says which records can come up while a run goes on, and which
  connection is open then; the rest of the module derives counts from it, shows that every step of
  a run keeps it, and puts both together.
-/

namespace DocQuery

/-! ## Connections on a record -/

namespace Calls

/-- The connections that were obtained, newest first. A connection has the number of connect calls
made before it. -/
def opened : List Call → List Nat
  | [] => []
  | .connect _ true :: earlier => earlier.countP Call.isConnect :: opened earlier
  | _ :: earlier => opened earlier

/-- The connections that were obtained and on which no close call was made yet. -/
def unclosed (calls : List Call) : List Nat :=
  (opened calls).filter fun n => !calls.any (Call.isCloseOf n)

/-- The connection that the last connect call obtained, if that call succeeded. -/
def lastObtained : List Call → Option Nat
  | [] => none
  | .connect _ true :: earlier => some (earlier.countP Call.isConnect)
  | .connect _ false :: _ => none
  | _ :: earlier => lastObtained earlier

/-- The records that come up in a run: a connection is asked for only while none is open, and
everything else goes to the one that is. -/
inductive Orderly : List Call → Option Nat → Prop where
  | start : Orderly [] none
  | refused {calls : List Call} (uri : String) (h : Orderly calls none) :
      Orderly (.connect uri false :: calls) none
  | obtained {calls : List Call} (uri : String) (h : Orderly calls none) :
      Orderly (.connect uri true :: calls) (some (calls.countP Call.isConnect))
  | collection {calls : List Call} {n : Nat} (name : String) (h : Orderly calls (some n)) :
      Orderly (.collection n name :: calls) (some n)
  | perform {calls : List Call} {n : Nat} {name : String} (request : Request)
      (h : Orderly calls (some n)) (hc : Call.collection n name ∈ calls) :
      Orderly (.perform n request :: calls) (some n)
  | close {calls : List Call} {n : Nat} (h : Orderly calls (some n)) :
      Orderly (.close n :: calls) none
  | complete {calls : List Call} {held : Option Nat} (h : Orderly calls held) :
      Orderly (.complete :: calls) held

/-- Every moment of an orderly record is orderly. -/
theorem Orderly.of_suffix {past calls : List Call} {held : Option Nat} (h : Orderly calls held)
    (hs : past <:+ calls) : ∃ held', Orderly past held' := by
  induction h with
  | start => rw [List.suffix_nil.mp hs]; exact ⟨none, .start⟩
  | refused uri h ih =>
    rcases List.suffix_cons_iff.mp hs with rfl | hs
    · exact ⟨_, .refused uri h⟩
    · exact ih hs
  | obtained uri h ih =>
    rcases List.suffix_cons_iff.mp hs with rfl | hs
    · exact ⟨_, .obtained uri h⟩
    · exact ih hs
  | collection name h ih =>
    rcases List.suffix_cons_iff.mp hs with rfl | hs
    · exact ⟨_, .collection name h⟩
    · exact ih hs
  | perform request h hc ih =>
    rcases List.suffix_cons_iff.mp hs with rfl | hs
    · exact ⟨_, .perform request h hc⟩
    · exact ih hs
  | close h ih =>
    rcases List.suffix_cons_iff.mp hs with rfl | hs
    · exact ⟨_, .close h⟩
    · exact ih hs
  | complete h ih =>
    rcases List.suffix_cons_iff.mp hs with rfl | hs
    · exact ⟨_, .complete h⟩
    · exact ih hs

theorem lt_of_mem_opened {n : Nat} {calls : List Call} (h : n ∈ opened calls) :
    n < calls.countP Call.isConnect := by
  induction calls with
  | nil => simp [opened] at h
  | cons c calls ih =>
    have hle : calls.countP Call.isConnect ≤ (c :: calls).countP Call.isConnect := by
      rw [List.countP_cons]; omega
    cases c with
    | connect uri ok =>
      have hc : (Call.connect uri ok :: calls).countP Call.isConnect
          = calls.countP Call.isConnect + 1 := by
        rw [List.countP_cons]; rfl
      cases ok with
      | false => have := ih h; omega
      | true =>
        rcases List.mem_cons.mp h with rfl | h
        · omega
        · have := ih h; omega
    | collection | perform | close | complete => exact Nat.lt_of_lt_of_le (ih h) hle

theorem Orderly.mem_opened {n : Nat} {calls : List Call} {held : Option Nat}
    (h : Orderly calls held) (hn : held = some n) : n ∈ opened calls := by
  induction h with
  | start | refused | close => cases hn
  | obtained uri h => cases hn; exact List.mem_cons_self
  | collection name h ih => exact ih hn
  | perform request h hc ih => exact ih hn
  | complete h ih => exact ih hn

/-- Close calls go to connections that were obtained. -/
theorem Orderly.closed_mem_opened {n : Nat} {calls : List Call} {held : Option Nat}
    (h : Orderly calls held) (hn : Call.close n ∈ calls) : n ∈ opened calls := by
  induction h with
  | start => cases hn
  | refused uri h ih | collection name h ih | perform request h hc ih | complete h ih =>
    rcases List.mem_cons.mp hn with hn | hn
    · cases hn
    · exact ih hn
  | obtained uri h ih =>
    rcases List.mem_cons.mp hn with hn | hn
    · cases hn
    · exact List.mem_cons_of_mem _ (ih hn)
  | close h ih =>
    rcases List.mem_cons.mp hn with hn | hn
    · cases hn; exact h.mem_opened rfl
    · exact ih hn

theorem any_isCloseOf_eq_true {n : Nat} {calls : List Call} :
    calls.any (Call.isCloseOf n) = true ↔ Call.close n ∈ calls := by
  have hone : ∀ c, Call.isCloseOf n c = true ↔ c = .close n := by
    intro c; cases c <;> simp [Call.isCloseOf]
  simp only [List.any_eq_true, hone, exists_eq_right]

/-- What is open is what the record says is held. -/
theorem Orderly.unclosed_eq {calls : List Call} {held : Option Nat} (h : Orderly calls held) :
    unclosed calls = held.toList := by
  induction h with
  | start => rfl
  | refused uri h ih | collection name h ih | perform request h hc ih | complete h ih => exact ih
  | @obtained calls uri h ih =>
    have hfresh : calls.any (Call.isCloseOf (calls.countP Call.isConnect)) = false := by
      rw [← Bool.not_eq_true, any_isCloseOf_eq_true]
      exact fun hc => Nat.lt_irrefl _ (lt_of_mem_opened (h.closed_mem_opened hc))
    have hold : unclosed (.connect uri true :: calls)
        = calls.countP Call.isConnect :: unclosed calls := by
      simp only [unclosed, opened, List.any_cons, Call.isCloseOf, Bool.false_or, List.filter_cons,
        hfresh, Bool.not_false, if_true]
    rw [hold, ih]
    rfl
  | @close calls n h ih =>
    have hsplit : unclosed (.close n :: calls) = (unclosed calls).filter fun m => !(n == m) := by
      simp only [unclosed, opened, List.any_cons, Call.isCloseOf, Bool.not_or, List.filter_filter]
    rw [hsplit, ih]
    simp

/-- Every connection obtained was closed once, except the one that is held. -/
theorem Orderly.countP_isCloseOf {calls : List Call} {held : Option Nat} (h : Orderly calls held)
    {n : Nat} (hn : n ∈ opened calls) :
    calls.countP (Call.isCloseOf n) = if held = some n then 0 else 1 := by
  induction h with
  | start => cases hn
  | refused uri h ih | collection name h ih | perform request h hc ih | complete h ih =>
    rw [List.countP_cons, ih hn]; rfl
  | @obtained calls uri h ih =>
    rw [List.countP_cons]
    rcases List.mem_cons.mp hn with rfl | hn
    · have hnone : calls.countP (Call.isCloseOf (calls.countP Call.isConnect)) = 0 := by
        rw [List.countP_eq_zero]
        intro c hc hclose
        have hmem := any_isCloseOf_eq_true.mp (List.any_eq_true.mpr ⟨c, hc, hclose⟩)
        exact Nat.lt_irrefl _ (lt_of_mem_opened (h.closed_mem_opened hmem))
      rw [hnone, if_pos rfl]
      rfl
    · have hne : some (calls.countP Call.isConnect) ≠ some n := by
        have := lt_of_mem_opened hn
        simp; omega
      rw [ih hn, if_neg hne]
      rfl
  | @close calls m h ih =>
    rw [List.countP_cons, ih hn]
    by_cases hm : m = n
    · simp [hm, Call.isCloseOf]
    · simp [hm, Call.isCloseOf]

/-- Close calls are as many as connections obtained, less the one that is held. -/
theorem Orderly.countP_isClose {calls : List Call} {held : Option Nat} (h : Orderly calls held) :
    calls.countP Call.isClose + held.toList.length = (opened calls).length := by
  induction h with
  | start => rfl
  | refused uri h ih | collection name h ih | perform request h hc ih | complete h ih =>
    rw [List.countP_cons]; exact ih
  | obtained uri h ih => rw [List.countP_cons]; simpa [opened, Call.isClose] using ih
  | close h ih => rw [List.countP_cons]; simpa [opened, Call.isClose] using ih

end Calls

/-! ## Every step keeps the record orderly -/

namespace Run

open Calls

variable {σ κ η α ρ : Type}

/-- What holds of a session and the record between two steps: the open connection is the one of the
session and the last one asked for, and a collection belongs to it. -/
structure Holding (c : Session (Nat × κ) (Nat × η)) (calls : List Call) : Prop where
  orderly : Orderly calls (c.connection.map Prod.fst)
  last : lastObtained calls = c.connection.map Prod.fst
  bound : ∀ h, c.collection = some h →
    c.connection.map Prod.fst = some h.1 ∧ ∃ name, Call.collection h.1 name ∈ calls
  running : calls.countP Call.isComplete = 0

theorem Holding.empty : Holding (.empty : Session (Nat × κ) (Nat × η)) [] :=
  ⟨.start, rfl, (fun _ hh => nomatch hh), rfl⟩

/-- Parts other than the connection and the collection do not matter. -/
theorem Holding.congr {c c' : Session (Nat × κ) (Nat × η)} {calls : List Call}
    (h : Holding c calls) (hn : c'.connection = c.connection) (hl : c'.collection = c.collection) :
    Holding c' calls :=
  ⟨by rw [hn]; exact h.orderly, by rw [hn]; exact h.last, by rw [hn, hl]; exact h.bound, h.running⟩

/-- Releasing a session closes its connection, if it has one, and calls nothing else. -/
theorem release_calls (d : Driver σ κ η) (c : Session (Nat × κ) (Nat × η)) (r : Recorded σ) :
    (release d.recording c r).2.calls = (c.connection.map fun n => .close n.1).toList ++ r.calls := by
  unfold release
  cases c.connection with
  | none => rfl
  | some conn =>
    dsimp only
    rw [Driver.recording_close]
    rcases d.close conn.2 r.inner with ⟨_ | _, s⟩
    · rfl
    · rfl

/-- Connecting without a connection keeps the record orderly. -/
theorem connect_holding (d : Driver σ κ η) (uri : String) {c : Session (Nat × κ) (Nat × η)}
    {r : Recorded σ} (h : Orderly r.calls none) (hn : c.connection = none)
    (hl : c.collection = none) (hr : r.calls.countP Call.isComplete = 0) :
    match d.recording.connect uri r with
    | (.error _, r') => Holding c r'.calls
    | (.ok conn, r') => Holding { c with connection := some conn } r'.calls := by
  have hcount : ∀ ok, (Call.connect uri ok :: r.calls).countP Call.isComplete = 0 := by
    intro ok; rw [List.countP_cons, hr]; rfl
  unfold Driver.recording
  dsimp only
  rcases hd : d.connect uri r.inner with ⟨_ | conn, s⟩
  · refine ⟨?_, ?_, ?_, hcount false⟩
    · rw [hn]; exact .refused uri h
    · rw [hn]; rfl
    · intro h hh; rw [hl] at hh; cases hh
  · refine ⟨.obtained uri h, rfl, ?_, hcount true⟩
    intro h hh
    have hnone : c.collection = some h := hh
    rw [hl] at hnone; cases hnone

/-- A session without a connection has no collection. -/
theorem Holding.collection_eq_none {c : Session (Nat × κ) (Nat × η)} {calls : List Call}
    (h : Holding c calls) (hn : c.connection = none) : c.collection = none := by
  cases hl : c.collection with
  | none => rfl
  | some coll =>
    have := (h.bound coll hl).1
    rw [hn] at this; cases this

theorem applyServer_holding (d : Driver σ κ η) (uri : String) {c : Session (Nat × κ) (Nat × η)}
    {r : Recorded σ} (h : Holding c r.calls) :
    Holding (applyServer d.recording uri c r).2.1 (applyServer d.recording uri c r).2.2.calls := by
  unfold applyServer
  cases hn : c.connection with
  | none =>
    have hc := connect_holding d uri (by simpa [hn] using h.orderly) hn (h.collection_eq_none hn)
      h.running
    simp only [Option.isSome_none, Bool.false_eq_true, if_false]
    split
    · next hd => rw [hd] at hc; exact hc
    · next hd => rw [hd] at hc; exact hc
  | some conn =>
    -- the earlier connection is closed before the next one is asked for
    simp only [Option.isSome_some, if_true]
    generalize hw : warn d.recording Log.stepTarget
      "`server` called twice in one chain; closing the earlier connection" r = r₁
    have hcalls : r₁.calls = r.calls := by rw [← hw]; rfl
    have hrel : (release d.recording c r₁).2.calls = .close conn.1 :: r.calls := by
      rw [release_calls, hn, hcalls]; rfl
    have ho : Orderly (release d.recording c r₁).2.calls none := by
      rw [hrel]; exact .close (by simpa [hn] using h.orderly)
    have hr : (release d.recording c r₁).2.calls.countP Call.isComplete = 0 := by
      rw [hrel, List.countP_cons, h.running]; rfl
    have hc := connect_holding (c := .empty) d uri ho rfl rfl hr
    split
    · next hd => rw [hd] at hc; exact hc
    · next hd => rw [hd] at hc; exact hc

theorem addClause_ok {c c' : Session κ η} {kind : StepKind} {fragment : String → Bool → Document}
    (h : addClause c kind fragment = .ok c') :
    c'.connection = c.connection ∧ c'.collection = c.collection := by
  unfold addClause at h
  split at h
  · cases h
  · cases h; exact ⟨rfl, rfl⟩

theorem apply_holding (d : Driver σ κ η) (step : Step) {c : Session (Nat × κ) (Nat × η)}
    {r : Recorded σ} (h : Holding c r.calls) :
    Holding (apply d.recording step c r).2.1 (apply d.recording step c r).2.2.calls := by
  cases step with
  | server uri => exact applyServer_holding d uri h
  | collection name =>
    unfold apply
    dsimp only
    split
    · exact h
    · next conn hreq =>
      have hn := required_eq_ok.mp hreq
      have ho : Orderly (.collection conn.1 name :: r.calls) (c.connection.map Prod.fst) := by
        rw [hn]; exact .collection name (by simpa [hn] using h.orderly)
      have hrun : (Call.collection conn.1 name :: r.calls).countP Call.isComplete = 0 := by
        rw [List.countP_cons, h.running]; rfl
      rw [Driver.recording_collection]
      rcases d.collection conn.2 name r.inner with ⟨_ | coll, s⟩
      · refine ⟨ho, h.last, ?_, hrun⟩
        intro coll hl
        obtain ⟨hconn, name', hmem⟩ := h.bound coll hl
        exact ⟨hconn, name', List.mem_cons_of_mem _ hmem⟩
      · refine ⟨ho, h.last, ?_, hrun⟩
        intro coll' hl
        cases hl
        exact ⟨congrArg (Option.map Prod.fst) hn, name, List.mem_cons_self⟩
  | select field => exact h.congr rfl rfl
  | negate => exact h.congr rfl rfl
  | compare comparison value =>
    unfold apply
    dsimp only
    split
    · exact h
    · next hc => obtain ⟨hn, hl⟩ := addClause_ok hc; exact h.congr hn hl
  | among values =>
    unfold apply
    dsimp only
    split
    · exact h
    · next hc => obtain ⟨hn, hl⟩ := addClause_ok hc; exact h.congr hn hl
  | assign field value => exact h.congr rfl rfl

/-! ## The last act, and the whole run -/

/-- The request of an operation goes to the collection of the session. -/
theorem perform_holding (d : Driver σ κ η) (op : Operation) {c : Session (Nat × κ) (Nat × η)}
    {r : Recorded σ} (h : Holding c r.calls) : Holding c (perform d.recording op c r).2.calls := by
  unfold perform
  cases hl : c.collection with
  | none => exact h
  | some coll =>
    cases hq : request c op with
    | error e => exact h
    | ok req =>
      obtain ⟨hconn, name, hmem⟩ := h.bound coll hl
      have hnew : Holding c (.perform coll.1 req :: r.calls) := by
        refine ⟨?_, h.last, ?_, by rw [List.countP_cons, h.running]; rfl⟩
        · have ho := h.orderly
          rw [hconn] at ho ⊢
          exact .perform req ho hmem
        · intro coll' hl'
          obtain ⟨hconn', name', hmem'⟩ := h.bound coll' hl'
          exact ⟨hconn', name', List.mem_cons_of_mem _ hmem'⟩
      dsimp only [required]
      rw [Driver.recording_perform]
      rcases d.perform coll.2 req _ with ⟨_ | _, s⟩
      · exact hnew
      · exact hnew

end Run

/-- What ends a run: one of the operations, read in some way, or an act of the caller's own. The
latter sees the session but cannot call through the driver of the run. -/
inductive LastAct (σ κ η α : Type) where
  | operation (op : Operation) (view : Report → α)
  | own (kind : StepKind)
      (act : Session (Nat × κ) (Nat × η) → σ → Except RunError α × σ)

namespace LastAct

variable {σ κ η α : Type}

/-- The last act of a run whose calls are recorded. -/
def terminal (d : Driver σ κ η) : LastAct σ κ η α → Terminal (Recorded σ) (Nat × κ) (Nat × η) α
  | operation op view => ⟨op.kind, fun c r =>
      let (result, r) := Run.perform d.recording op c r
      (result.map view, r)⟩
  | own kind act => ⟨kind, fun c r =>
      let (result, s) := act c r.inner
      (result, { r with inner := s })⟩

theorem run_holding (d : Driver σ κ η) (act : LastAct σ κ η α)
    {c : Session (Nat × κ) (Nat × η)} {r : Recorded σ} (h : Run.Holding c r.calls) :
    Run.Holding c ((act.terminal d).run c r).2.calls := by
  cases act with
  | operation op view => exact Run.perform_holding d op h
  | own kind act => exact h

end LastAct

namespace Calls

/-- The record of a run that treats its connections well. -/
structure Disciplined (calls : List Call) : Prop where
  /-- Every connection obtained is closed exactly once, and nothing else is closed. -/
  closed_once : ∀ n ∈ opened calls, calls.countP (Call.isCloseOf n) = 1
  closed_opened : ∀ n, Call.close n ∈ calls → n ∈ opened calls
  /-- There are as many close calls as connect calls that succeeded. -/
  closes_eq : calls.countP Call.isClose = (opened calls).length
  /-- At no moment are two connections open. -/
  one_open : ∀ past, past <:+ calls → (unclosed past).length ≤ 1
  /-- The outcome is handed over exactly once. By then everything is closed but the connection that
  the last connect call obtained, and closing that one is all that follows. -/
  completed : ∃ past, past.countP Call.isComplete = 0 ∧
    unclosed past = (lastObtained past).toList ∧
    calls = (lastObtained past).toList.map .close ++ .complete :: past
  /-- A request goes to a collection of a connection that is open. -/
  request_open : ∀ n request past, .perform n request :: past <:+ calls →
    n ∈ unclosed past ∧ ∃ name, Call.collection n name ∈ past

theorem disciplined_of_orderly {past : List Call} (h : Orderly past (lastObtained past))
    (hrun : past.countP Call.isComplete = 0) :
    Disciplined ((lastObtained past).toList.map .close ++ .complete :: past) := by
  have hall : Orderly ((lastObtained past).toList.map .close ++ .complete :: past) none := by
    cases hl : lastObtained past with
    | none => rw [hl] at h; exact .complete h
    | some n => rw [hl] at h; exact .close (.complete h)
  refine ⟨?_, fun n => hall.closed_mem_opened, ?_, ?_, ⟨past, hrun, h.unclosed_eq, rfl⟩, ?_⟩
  · intro n hn
    rw [hall.countP_isCloseOf hn, if_neg (by simp)]
  · simpa using hall.countP_isClose
  · intro p hp
    obtain ⟨held, ho⟩ := hall.of_suffix hp
    rw [ho.unclosed_eq]
    cases held <;> simp
  · intro n request p hp
    obtain ⟨held, ho⟩ := hall.of_suffix hp
    cases ho with
    | perform _ ho hc => exact ⟨by rw [ho.unclosed_eq]; simp, _, hc⟩

end Calls

/-- The calls of a run: for every list of steps, every last act, every completion and every driver,
whichever of its calls fail. -/
theorem execute_disciplined {σ κ η α ρ : Type} (d : Driver σ κ η) (steps : List Step)
    (act : LastAct σ κ η α) (complete : Except RunError α → σ → ρ × σ) (s : σ) :
    Calls.Disciplined (Run.execute d.recording steps (act.terminal d)
      (Recorded.completing complete) (.start s)).2.calls := by
  have hdrive := Run.drive_keeps d.recording (I := fun c r => Run.Holding c r.calls)
    (fun _ _ _ h => h) (fun step _ _ _ h => Run.apply_holding d step h) (act.terminal d)
    (fun _ _ h => act.run_holding d h) steps (.start s) .empty
  unfold Run.execute
  generalize Run.drive d.recording steps (act.terminal d) (.start s) = out at hdrive
  obtain ⟨outcome, c, r⟩ := out
  have hnoted := Run.noteOutcome_keeps d.recording (I := fun c r => Run.Holding c r.calls)
    (fun _ _ _ h => h) (act.terminal d).kind outcome hdrive
  dsimp only
  generalize Run.noteOutcome d.recording (act.terminal d).kind c outcome r = r₁ at hnoted
  have hcalls : ∀ (c' : Session (Nat × κ) (Nat × η)) r', c'.connection = c.connection →
      r'.calls = .complete :: r₁.calls → (Run.release d.recording c' r').2.calls =
        (Calls.lastObtained r₁.calls).toList.map .close ++ .complete :: r₁.calls := by
    intro c' r' hc hr
    rw [Run.release_calls, hc, hr, hnoted.last]
    cases c.connection <;> rfl
  have hgoal := Calls.disciplined_of_orderly (by rw [hnoted.last]; exact hnoted.orderly)
    hnoted.running
  rw [← hcalls (c.finish outcome.isOk) (Recorded.completing complete outcome r₁).2 rfl rfl] at hgoal
  exact hgoal

end DocQuery
