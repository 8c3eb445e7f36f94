import DocQuery.Proofs.Agreement
import DocQuery.Proofs.InsertedDocuments
import DocQuery.Proofs.PathUpdates

/-
  Reading back what an update has assigned. The update goes down a path by making the documents that
  are missing on it, the query goes down by what it finds and stops after 32 names. `set_then_find`:
  along a path that the query follows to its end, each document that the update has matched is found
  by the value that was assigned to it.

  One document is settled by `Update.find?_apply`; that all of them are found follows from what an
  update leaves of a collection (`Assigns`), since the query asks each document on its own.
-/

namespace DocQuery

namespace Update

/-! ## A value that has been set -/

/-- A value set at a path that a query can follow is found there. -/
theorem find?_setPath {d d' : Document} {path : String} {value : Value} {c : Bool}
    (hset : setPath d path value = .ok (d', c))
    (hlength : (FieldPath.segments path).length ≤ FieldPath.maxSegments) :
    FieldPath.find? d' path = some value := by
  unfold setPath at hset
  split at hset
  · next hat =>
    cases hset
    unfold FieldPath.find?
    dsimp only
    rw [if_pos hlength]
    rw [FieldPath.lookup_eq_descend (FieldPath.segments_ne_nil path)]
    exact descend_setAt_self (FieldPath.segments_ne_nil path) hat
  · cases hset

/-- One operator on its own. -/
theorem applyOperators_single (d : Document) (changed : Bool) (op : String) (operand : Value) :
    applyOperators d changed [(op, operand)] = applyOperator d changed op operand := by
  unfold applyOperators
  split
  · next happly => exact happly.symm
  · rfl

/-- What one assignment makes of a document: an identifier is refused, any other path is set. -/
theorem apply_updateOf_single (path : String) (value : Value) (d : Document) :
    apply (Steps.updateOf [(path, value)]) d =
      if path = "_id" then ⟨d, .error .idImmutable⟩
      else
        match setPath d path value with
        | .ok (d', c) => ⟨d', .ok c⟩
        | .error e => ⟨d, .error e⟩ := by
  have hchecked : checkedFields "$set" (.document [(path, value)]) =
      if path = "_id" then .error .idImmutable else .ok [(path, value)] := by
    unfold checkedFields
    by_cases hid : path = "_id"
    · simp [hid, maxFields, Keyed.has, Keyed.get?]
    · simp [hid, maxFields, Keyed.has, Keyed.get?]
  have hoperator : apply (Steps.updateOf [(path, value)]) d =
      applyOperator d false "$set" (.document [(path, value)]) :=
    applyOperators_single d false "$set" _
  rw [hoperator, applyOperator, hchecked]
  by_cases hid : path = "_id"
  · rw [if_pos hid, if_pos hid]
  · rw [if_neg hid, if_neg hid]
    dsimp only
    rw [if_pos rfl, setAll]
    rcases setPath d path value with e | ⟨d', c⟩
    · rfl
    · simp [setAll]

/-- After an assignment that has gone through, its value is found at its path. -/
theorem find?_apply {path : String} {value : Value} {d : Document} {changed : Bool}
    (happly : (apply (Steps.updateOf [(path, value)]) d).result = .ok changed)
    (hlength : (FieldPath.segments path).length ≤ FieldPath.maxSegments) :
    FieldPath.find? (apply (Steps.updateOf [(path, value)]) d).document path = some value := by
  rw [apply_updateOf_single] at happly ⊢
  split at happly
  · cases happly
  · next hid =>
    rw [if_neg hid]
    split at happly
    · next hset =>
      exact find?_setPath hset hlength
    · cases happly

end Update

namespace Engine

/-! ## Finding it again -/

theorem selects_holding (path : String) (v : Value) (d : Document) :
    Steps.selects (holding path v) d = Comparison.equal.holds (FieldPath.find? d path) v := by
  unfold Steps.selects
  rw [clauses_holding, List.all_cons, List.all_nil, Bool.and_true, Clause.holds]

/-- What passes one test and passes another once it has been replaced is among what passes the
other. -/
theorem sublist_filter_map {α : Type} {p q : α → Bool} {f : α → α} {l : List α}
    (h : ∀ x ∈ l, p x = true → q (f x) = true) :
    ((l.filter p).map f).Sublist ((l.map fun x => if p x then f x else x).filter q) := by
  induction l with
  | nil => exact .slnil
  | cons x l ih =>
    have hrest := ih fun y hy => h y (List.mem_cons_of_mem _ hy)
    rw [List.map_cons]
    cases hp : p x with
    | false =>
      rw [List.filter_cons_of_neg (by simp [hp])]
      exact hrest.trans ((List.sublist_cons_self _ _).filter q)
    | true =>
      have hq : q (f x) = true := h x List.mem_cons_self hp
      rw [List.filter_cons_of_pos hp, List.map_cons]
      simp only [if_true]
      rw [List.filter_cons_of_pos hq]
      exact hrest.cons_cons _

/-- What an assignment makes of a document. -/
def assigned (path : String) (v : Value) (d : Document) : Document :=
  (Update.apply (Steps.updateOf [(path, v)]) d).document

/-- What a run of clauses and one assignment leaves when it has gone through as an update: it has
assigned to each document that the clauses select. -/
structure Assigns (uri name : String) (f : Filter) (path : String) (v : Value) (report : Report)
    (g g' : Engine) : Prop where
  valid : validCollectionName name = true
  counted : ∃ modified, report = .updated ((found uri name g).countP f.eval) modified
  through : ∀ d ∈ found uri name g, f.eval d = true →
    ∃ changed, (Update.apply (Steps.updateOf [(path, v)]) d).result = .ok changed
  here : found uri name g' =
    (found uri name g).map fun d => if f.eval d then assigned path v d else d
  opens : ∃ n g₁ database, g'.connect uri = (.ok n, g₁) ∧
    g₁.connection? n = some ⟨database, false⟩

theorem assigns_of_run {uri name path : String} {v : Value} {steps : List Step}
    (hput : ∀ step ∈ steps, step.staysPut = true) (hset : Steps.assignments steps = [(path, v)])
    {report : Report} {g : Engine}
    (h : (Run.run driver (.server uri :: .collection name :: steps) .update g).1 = .ok report) :
    ∃ filter f, Clause.filterOf (Steps.clauses steps) = some filter ∧
      Filter.parse filter = .ok f ∧ Assigns uri name f path v report g
        (Run.run driver (.server uri :: .collection name :: steps) .update g).2 := by
  obtain ⟨r, c, htracks, hrequest, hchanges⟩ :=
    changes_of_run hput (fun hop => Operation.noConfusion hop) h
  obtain ⟨filter, spec, multi, hfilter, hspec, hmulti, rfl⟩ := update_of_request hrequest
  have hclauses : Clause.filterOf (Steps.clauses steps) = some filter :=
    htracks.filter.symm.trans hfilter
  obtain rfl : Steps.updateOf [(path, v)] = spec := by
    have htracked := htracks.updateSpec
    rw [hset, if_neg (List.cons_ne_nil _ _), hspec] at htracked
    exact (Option.some.inj htracked).symm
  obtain rfl : true = multi := by
    have htracked := htracks.multi
    rw [hspec, hmulti] at htracked
    exact (Option.some.inj htracked).symm
  obtain ⟨s, hout⟩ := hchanges.outcome
  dsimp only [Request.outcome] at hout
  cases hparse : Filter.parse filter with
  | error e =>
    rw [hparse] at hout
    cases hout
  | ok f =>
    rw [hparse] at hout
    dsimp only at hout
    rw [updateMatching_all] at hout
    refine ⟨filter, f, hclauses, hparse, ?_⟩
    split at hout
    · cases hout
    · next hok =>
      split at hok
      · cases hok
      · next hfirst =>
        cases hok
        obtain ⟨hreport, hfound⟩ := Prod.mk.inj (Except.ok.inj hout)
        refine ⟨hchanges.valid, ⟨_, hreport.symm⟩, ?_, hfound.symm, hchanges.opens⟩
        intro d hd hmatch
        have hnone := List.findSome?_eq_none_iff.mp hfirst d (List.mem_filter.mpr ⟨hd, hmatch⟩)
        exact Update.Progress.error?_eq_none.mp hnone

/-- After an update that assigns a value at a path, every document that it has matched is found by
that value, in the state in which the update has left it. This holds in memory and in a directory,
for all clauses, for every path that a query can follow, and for every value that is equal to itself
and is not taken for operators when the query is parsed. -/
theorem set_then_find {uri name path : String} {v : Value} {steps : List Step} {g : Engine}
    {report : Report} (hput : ∀ step ∈ steps, step.staysPut = true)
    (hset : Steps.assignments steps = [(path, v)])
    (hupdate : (Run.run driver (.server uri :: .collection name :: steps) .update g).1 =
      .ok report)
    (hlength : (FieldPath.segments path).length ≤ FieldPath.maxSegments)
    (hpath : Filter.isOperatorKey path = false) (hv : v.WellFormed) (hdouble : v.hasDouble = false)
    (hoperators : v.readsAsOperators = false) :
    let g' := (Run.run driver (.server uri :: .collection name :: steps) .update g).2
    ∃ filter f modified answer, Clause.filterOf (Steps.clauses steps) = some filter ∧
      Filter.parse filter = .ok f ∧
      report = .updated ((found uri name g).countP f.eval) modified ∧
      found uri name g' =
        ((found uri name g).map fun d => if f.eval d then assigned path v d else d) ∧
      (Run.run driver (.server uri :: .collection name :: holding path v) .find g').1 =
        .ok (.documents answer) ∧
      (((found uri name g).filter f.eval).map (assigned path v)).Sublist answer := by
  intro g'
  obtain ⟨filter, f, hclauses, hparse, hassigns⟩ := assigns_of_run hput hset hupdate
  obtain ⟨modified, hreport⟩ := hassigns.counted
  obtain ⟨n, g₁, database, hconnect, hopen⟩ := hassigns.opens
  refine ⟨filter, f, modified, _, hclauses, hparse, hreport, hassigns.here,
    run_find hconnect hopen hassigns.valid (holding_composed hpath hoperators), ?_⟩
  rw [hassigns.here]
  refine sublist_filter_map ?_
  intro d hd hmatch
  obtain ⟨changed, happly⟩ := hassigns.through d hd hmatch
  rw [selects_holding, assigned, Update.find?_apply happly hlength]
  exact Value.alike_self hv hdouble

/-- Puts the items of which there are seven on the fourth shelf. -/
def shelve : List Step :=
  [.select "stock", .compare .equal (.int32 7), .assign "place.shelf" (.int32 4)]

theorem set_then_find_shelve :
    (Run.run driver (.server "memory://shop" :: .collection "items" :: shelve) .update stocked).1 =
        .ok (.updated 1 1) ∧
      ∃ answer, (Run.run driver
          (.server "memory://shop" :: .collection "items" :: holding "place.shelf" (.int32 4)) .find
          (Run.run driver (.server "memory://shop" :: .collection "items" :: shelve) .update
            stocked).2).1 = .ok (.documents answer) ∧
        [[("_id", .int32 2), ("stock", .int32 7),
          ("place", Value.document [("shelf", .int32 4)])]].Sublist answer := by
  have hupdate : (Run.run driver (.server "memory://shop" :: .collection "items" :: shelve) .update
      stocked).1 = .ok (.updated 1 1) := by rfl
  refine ⟨hupdate, ?_⟩
  obtain ⟨filter, f, modified, answer, hclauses, hparse, -, -, hfind, hsublist⟩ :=
    set_then_find (by decide) (by rfl) hupdate (by decide) (by decide)
      (by simp [Value.WellFormed]) (by rfl) (by rfl)
  obtain rfl : [("stock", .int32 7)] = filter := Option.some.inj hclauses
  obtain rfl : Filter.compare "stock" .eq (.int32 7) = f := Except.ok.inj hparse
  exact ⟨answer, hfind, hsublist⟩

/-- A path of one name more than a query can follow. -/
def deepPath : String := "a.a.a.a.a.a.a.a.a.a.a.a.a.a.a.a.a.a.a.a.a.a.a.a.a.a.a.a.a.a.a.a.a"

/-- Assigns along it to the item that has a stock of seven. -/
def bury : List Step := [.select "stock", .compare .equal (.int32 7), .assign deepPath (.int32 4)]

/-- The update makes all 33 documents of such a path, and the query stops before the last of them:
nothing is found. -/
theorem not_set_then_find : ¬ ∀ {uri name path : String} {v : Value} {steps : List Step}
    {g : Engine} {report : Report}, (∀ step ∈ steps, step.staysPut = true) →
    Steps.assignments steps = [(path, v)] →
    (Run.run driver (.server uri :: .collection name :: steps) .update g).1 = .ok report →
    Filter.isOperatorKey path = false → v.WellFormed → v.hasDouble = false →
    v.readsAsOperators = false →
    ∃ filter f answer, Clause.filterOf (Steps.clauses steps) = some filter ∧
      Filter.parse filter = .ok f ∧
      (Run.run driver (.server uri :: .collection name :: holding path v) .find
        (Run.run driver (.server uri :: .collection name :: steps) .update g).2).1 =
          .ok (.documents answer) ∧
      (((found uri name g).filter f.eval).map (assigned path v)).Sublist answer := by
  intro hall
  have hupdate : (Run.run driver (.server "memory://shop" :: .collection "items" :: bury) .update
      stocked).1 = .ok (.updated 1 1) := by rfl
  obtain ⟨filter, f, answer, hclauses, hparse, hfind, hsublist⟩ :=
    hall (by decide) (by rfl) hupdate (by decide) (by simp [Value.WellFormed]) (by rfl) (by rfl)
  obtain rfl : [("stock", .int32 7)] = filter := Option.some.inj hclauses
  obtain rfl : Filter.compare "stock" .eq (.int32 7) = f := Except.ok.inj hparse
  have hnothing : (Run.run driver
      (.server "memory://shop" :: .collection "items" :: holding deepPath (.int32 4)) .find
      (Run.run driver (.server "memory://shop" :: .collection "items" :: bury) .update
        stocked).2).1 = .ok (.documents []) := by rfl
  cases hfind.symm.trans hnothing
  exact absurd (List.Sublist.length_le hsublist) (by decide)

end Engine

end DocQuery
