import DocQuery.Proofs.Actions
import DocQuery.Proofs.ReopenedQueries

/-
  Finding, removing and updating agree on what a filter matches. Each of them goes over the
  documents of a collection in its own way: one collects the matches, one keeps the others, one
  replaces matches as it comes to them and may stop at the first. `requests_agree` states all three
  by the places of the matches in the collection as it was before.

  An update is carried by `updateMatching_touched`: the places that it touches are known beforehand,
  because what it makes of one document is never asked of the filter again.
-/

namespace DocQuery

namespace Update.Progress

variable {p : Progress}

theorem error?_eq_some {e : UpdateError} :
    p.error? = some e ↔ p.result = .error e := by
  unfold error?
  cases p.result with
  | ok changed => simp
  | error e => simp

theorem error?_eq_none :
    p.error? = none ↔ ∃ changed, p.result = .ok changed := by
  unfold error?
  cases p.result with
  | ok changed => simp
  | error e => simp

end Update.Progress

namespace Engine

/-! ## Places in a longer list -/

theorem places_cons {α : Type} (p : α → Bool) (x : α) (l : List α) :
    places p (x :: l) =
      if p x then 0 :: (places p l).map Nat.succ else (places p l).map Nat.succ := by
  have hrest : (((List.range l.length).map Nat.succ).filter fun i => (x :: l)[i]?.any p) =
      (places p l).map Nat.succ := by
    rw [List.filter_map]
    rfl
  unfold places at hrest ⊢
  rw [List.length_cons, List.range_succ_eq_map, List.filter_cons, hrest]
  rfl

theorem standingAt_succ {α : Type} (x : α) (l : List α) (positions : List Nat) :
    standingAt (x :: l) (positions.map Nat.succ) = standingAt l positions := by
  unfold standingAt
  rw [List.filterMap_map]
  rfl

theorem length_places {α : Type} (p : α → Bool) (l : List α) :
    (places p l).length = (l.filter p).length := by
  induction l with
  | nil => rfl
  | cons x l ih =>
    rw [places_cons, List.filter_cons]
    split
    · rw [List.length_cons, List.length_cons, List.length_map, ih]
    · rw [List.length_map, ih]

theorem mem_places {α : Type} {p : α → Bool} {l : List α} {i : Nat} {x : α} (hx : l[i]? = some x) :
    i ∈ places p l ↔ p x = true := by
  have hi : i < l.length := (List.getElem?_eq_some_iff.mp hx).1
  unfold places
  rw [List.mem_filter, List.mem_range, hx]
  exact and_iff_right hi

/-- What does not pass a test stands at the other places. -/
theorem standingAt_others {α : Type} (p : α → Bool) (l : List α) :
    standingAt l ((List.range l.length).filter fun i => i ∉ places p l) =
      l.filter fun x => !p x := by
  rw [← standingAt_places fun x => !p x]
  refine congrArg (standingAt l) (List.filter_congr ?_)
  intro i hi
  obtain ⟨x, hx⟩ : ∃ x, l[i]? = some x := ⟨_, List.getElem?_eq_getElem (List.mem_range.mp hi)⟩
  have hplaces : decide (i ∈ places p l) = p x :=
    (decide_eq_decide.mpr (mem_places hx)).trans (Bool.decide_coe _)
  rw [hx, decide_not, hplaces]
  rfl

/-! ## Updating at places -/

/-- The places of the documents that an update touches: all that match, or the first. -/
def touched (f : Filter) (multi : Bool) (docs : List Document) : List Nat :=
  if multi then places f.eval docs else (places f.eval docs).take 1

/-- The documents with an update applied to those at some places. -/
def updatedAt (spec : Document) (positions : List Nat) (docs : List Document) : List Document :=
  docs.mapIdx fun i d => if i ∈ positions then (Update.apply spec d).document else d

section Touched

variable (f : Filter) (spec : Document) (d : Document) (rest : List Document)

theorem touched_cons_other (multi : Bool) (hd : f.eval d = false) :
    touched f multi (d :: rest) = (touched f multi rest).map Nat.succ := by
  unfold touched
  rw [places_cons, hd]
  split
  · rfl
  · exact (List.map_take ..).symm

theorem touched_cons_all (hd : f.eval d = true) :
    touched f true (d :: rest) = 0 :: (touched f true rest).map Nat.succ := by
  unfold touched
  rw [places_cons, hd]
  rfl

theorem touched_cons_first (hd : f.eval d = true) : touched f false (d :: rest) = [0] := by
  unfold touched
  rw [places_cons, hd]
  rfl

theorem updatedAt_succ (positions : List Nat) :
    updatedAt spec (positions.map Nat.succ) (d :: rest) = d :: updatedAt spec positions rest := by
  unfold updatedAt
  simp [List.mapIdx_cons]

theorem updatedAt_zero_succ (positions : List Nat) :
    updatedAt spec (0 :: positions.map Nat.succ) (d :: rest) =
      (Update.apply spec d).document :: updatedAt spec positions rest := by
  unfold updatedAt
  simp [List.mapIdx_cons]

end Touched

theorem updatedAt_nil (spec : Document) (docs : List Document) : updatedAt spec [] docs = docs := by
  unfold updatedAt
  simp [List.mapIdx_eq_iff]

/-- An update ends with the first failure among the documents that it touches, or it goes through on
each of them, and no document is asked for by the filter after it was changed. -/
theorem updateMatching_touched (f : Filter) (spec : Document) (multi : Bool)
    (docs : List Document) :
    updateMatching f spec multi docs =
      match (standingAt docs (touched f multi docs)).findSome? fun d =>
          (Update.apply spec d).error? with
      | some e => .error e
      | none => .ok (updatedAt spec (touched f multi docs) docs, (touched f multi docs).length,
          (standingAt docs (touched f multi docs)).countP fun d =>
            (Update.apply spec d).changed) := by
  induction docs with
  | nil => cases multi <;> rfl
  | cons d rest ih =>
    rw [updateMatching]
    cases hd : f.eval d with
    | false =>
      rw [touched_cons_other f d rest multi hd, standingAt_succ, updatedAt_succ, List.length_map, ih]
      simp only [Bool.false_eq_true, if_false]
      cases (standingAt rest (touched f multi rest)).findSome? fun d =>
        (Update.apply spec d).error? <;> rfl
    | true =>
      cases multi with
      | false =>
        have hzero : updatedAt spec [0] (d :: rest) = (Update.apply spec d).document :: rest := by
          have h := updatedAt_zero_succ spec d rest []
          rw [updatedAt_nil] at h
          exact h
        rw [touched_cons_first f d rest hd, hzero]
        rcases hp : Update.apply spec d with ⟨d', e | changed⟩
        · simp [standingAt, hp, Update.Progress.error?]
        · simp [standingAt, hp, Update.Progress.error?, Update.Progress.changed]
      | true =>
        have hstand : standingAt (d :: rest) (0 :: (touched f true rest).map Nat.succ) =
            d :: standingAt rest (touched f true rest) :=
          congrArg (d :: ·) (standingAt_succ d rest _)
        rw [touched_cons_all f d rest hd, updatedAt_zero_succ, hstand, ih, List.findSome?_cons]
        rcases hp : Update.apply spec d with ⟨d', e | changed⟩
        · rfl
        · have hchanged : (Update.apply spec d).changed = changed := by rw [hp]; rfl
          rw [List.countP_cons, hchanged, List.length_cons, List.length_map]
          cases (standingAt rest (touched f true rest)).findSome? fun d =>
            (Update.apply spec d).error? <;> rfl

/-! ## Requests through an open handle -/

/-- What an update leaves that has gone through on the documents at some places: as many documents
in the same order, those at the places replaced by what the update makes of them. -/
structure UpdatedAt (g g' : Engine) (database collection : String) (spec : Document)
    (positions : List Nat) : Prop where
  through : ∀ d ∈ standingAt (g.store.documents database collection) positions,
    ∃ changed, (Update.apply spec d).result = .ok changed
  length : (g'.store.documents database collection).length =
    (g.store.documents database collection).length
  documents : ∀ i d, (g.store.documents database collection)[i]? = some d →
    (g'.store.documents database collection)[i]? =
      some (if i ∈ positions then (Update.apply spec d).document else d)
  elsewhere : ∀ database' collection', (database', collection') ≠ (database, collection) →
    g'.store.documents database' collection' = g.store.documents database' collection'

theorem UpdatedAt.of_leaves {g g' : Engine} {database collection : String} {spec : Document}
    {positions : List Nat}
    (hthrough : ∀ d ∈ standingAt (g.store.documents database collection) positions,
      ∃ changed, (Update.apply spec d).result = .ok changed)
    (hleaves : Leaves g g' database collection
      (updatedAt spec positions (g.store.documents database collection))) :
    UpdatedAt g g' database collection spec positions := by
  refine ⟨hthrough, ?_, ?_, hleaves.elsewhere⟩
  · rw [hleaves.here, updatedAt, List.length_mapIdx]
  · intro i d hd
    rw [hleaves.here, updatedAt, List.getElem?_mapIdx, hd]
    rfl

/-- How finding, removing and updating by one filter act on the documents of a collection. All is
said by the places of the documents that match. -/
structure Agreement (g : Engine) (h : Handle) (database : String) (filter : Document) (f : Filter)
    (docs : List Document) : Prop where
  found : (g.perform h (.find filter)).1 = .ok (.documents (standingAt docs (places f.eval docs)))
  deleted : (g.perform h (.remove filter)).1 = .ok (.deleted (places f.eval docs).length)
  /-- What is left after removing is what stands at the other places. -/
  kept : Leaves g (g.perform h (.remove filter)).2 database h.collection
    (standingAt docs ((List.range docs.length).filter fun i => i ∉ places f.eval docs))
  gone : ((g.perform h (.remove filter)).2.perform h (.find filter)).1 = .ok (.documents [])
  /-- An update goes through just if it does on each document that it is applied to. -/
  updates : ∀ spec multi, (∃ report, (g.perform h (.update filter spec multi)).1 = .ok report) ↔
    ∀ d ∈ standingAt docs (touched f multi docs),
      ∃ changed, (Update.apply spec d).result = .ok changed
  /-- It then counts these documents, and those among them that it changed. -/
  counts : ∀ spec multi report, (g.perform h (.update filter spec multi)).1 = .ok report →
    report = .updated (touched f multi docs).length
      ((standingAt docs (touched f multi docs)).countP fun d => (Update.apply spec d).changed)
  /-- It has replaced these documents by what it makes of them, and no other. -/
  updated : ∀ spec multi report, (g.perform h (.update filter spec multi)).1 = .ok report →
    UpdatedAt g (g.perform h (.update filter spec multi)).2 database h.collection spec
      (touched f multi docs)
  /-- Where nothing matches, any update goes through and changes nothing. -/
  unmatched : places f.eval docs = [] → ∀ spec multi,
    (g.perform h (.update filter spec multi)).1 = .ok (.updated 0 0) ∧
    Leaves g (g.perform h (.update filter spec multi)).2 database h.collection docs

section Open

variable {g : Engine} {h : Handle} {database : String} {filter : Document} {f : Filter}
  {docs : List Document} (hopen : g.databaseOf h = .ok database)
  (hmem : g.store.directoryOf database = none) (hparse : Filter.parse filter = .ok f)
include hopen hmem hparse

theorem find_after_remove :
    ((g.perform h (.remove filter)).2.perform h (.find filter)).1 = .ok (.documents []) := by
  have hopen' : (g.perform h (.remove filter)).2.databaseOf h = .ok database := by
    rw [databaseOf_congr (g.perform_keepsConnections h (.remove filter)).1]
    exact hopen
  obtain ⟨-, hleaves⟩ := perform_remove (prepare_eq_ok.mpr ⟨hopen, hparse⟩) hmem
  rw [(perform_find (prepare_eq_ok.mpr ⟨hopen', hparse⟩)).1, hleaves.here, List.filter_filter]
  simp

variable (hdocs : g.store.documents database h.collection = docs)
include hdocs

/-- In memory an update fails on one of the documents that it touches, and then changes none, or it
goes through on all of them. -/
theorem perform_update_touched (spec : Document) (multi : Bool) :
    (∃ d ∈ standingAt docs (touched f multi docs), ∃ e, (Update.apply spec d).result = .error e ∧
      (g.perform h (.update filter spec multi)).1 = .error (.update e)) ∨
    ((g.perform h (.update filter spec multi)).1 = .ok (.updated (touched f multi docs).length
        ((standingAt docs (touched f multi docs)).countP fun d => (Update.apply spec d).changed)) ∧
      UpdatedAt g (g.perform h (.update filter spec multi)).2 database h.collection spec
        (touched f multi docs)) := by
  subst hdocs
  have hend := perform_update spec multi (prepare_eq_ok.mpr ⟨hopen, hparse⟩) hmem
  rw [updateMatching_touched] at hend
  cases hfirst : (standingAt (g.store.documents database h.collection)
      (touched f multi (g.store.documents database h.collection))).findSome? fun d =>
        (Update.apply spec d).error? with
  | some e =>
    rw [hfirst] at hend
    obtain ⟨d, hd, he⟩ := List.exists_of_findSome?_eq_some hfirst
    exact .inl ⟨d, hd, e, Update.Progress.error?_eq_some.mp he, hend.1⟩
  | none =>
    rw [hfirst] at hend
    refine .inr ⟨hend.1, .of_leaves ?_ hend.2⟩
    intro d hd
    exact Update.Progress.error?_eq_none.mp (List.findSome?_eq_none_iff.mp hfirst d hd)

theorem perform_remove_places :
    (g.perform h (.remove filter)).1 = .ok (.deleted (places f.eval docs).length) ∧
    Leaves g (g.perform h (.remove filter)).2 database h.collection
      (standingAt docs ((List.range docs.length).filter fun i => i ∉ places f.eval docs)) := by
  subst hdocs
  obtain ⟨hcount, hleaves⟩ := perform_remove (prepare_eq_ok.mpr ⟨hopen, hparse⟩) hmem
  rw [standingAt_others, length_places, ← List.countP_eq_length_filter]
  exact ⟨hcount, hleaves⟩

theorem update_unmatched (hnone : places f.eval docs = []) (spec : Document) (multi : Bool) :
    (g.perform h (.update filter spec multi)).1 = .ok (.updated 0 0) ∧
    Leaves g (g.perform h (.update filter spec multi)).2 database h.collection docs := by
  have htouched : touched f multi docs = [] := by
    unfold touched
    rw [hnone]
    split
    · rfl
    · rfl
  have hend := perform_update spec multi (prepare_eq_ok.mpr ⟨hopen, hparse⟩) hmem
  rw [hdocs, updateMatching_touched, htouched, updatedAt_nil] at hend
  exact hend

/-- Finding, removing and updating agree on what a filter matches: for every collection of a database
in memory, every filter that is accepted, and every update, of all matches or the first. -/
theorem requests_agree : Agreement g h database filter f docs := by
  obtain ⟨hdeleted, hkept⟩ := perform_remove_places hopen hmem hparse hdocs
  refine ⟨?_, hdeleted, hkept, find_after_remove hopen hmem hparse, ?_, ?_, ?_,
    update_unmatched hopen hmem hparse hdocs⟩
  · rw [(perform_find (prepare_eq_ok.mpr ⟨hopen, hparse⟩)).1, hdocs, standingAt_places]
  · intro spec multi
    rcases perform_update_touched hopen hmem hparse hdocs spec multi with
      ⟨d, hd, e, he, hfailed⟩ | ⟨hok, hupdated⟩
    · refine ⟨fun ⟨report, hreport⟩ => ?_, fun hall => ?_⟩
      · cases hreport.symm.trans hfailed
      · obtain ⟨changed, hchanged⟩ := hall d hd
        cases hchanged.symm.trans he
    · exact ⟨fun _ => hdocs ▸ hupdated.through, fun _ => ⟨_, hok⟩⟩
  · intro spec multi report hreport
    rcases perform_update_touched hopen hmem hparse hdocs spec multi with
      ⟨d, hd, e, he, hfailed⟩ | ⟨hok, -⟩
    · cases hreport.symm.trans hfailed
    · exact Except.ok.inj (hreport.symm.trans hok)
  · intro spec multi report hreport
    rcases perform_update_touched hopen hmem hparse hdocs spec multi with
      ⟨d, hd, e, he, hfailed⟩ | ⟨-, hupdated⟩
    · cases hreport.symm.trans hfailed
    · exact hupdated

end Open

/-- Of two items the second alone is of size five. -/
theorem requests_agree_sized :
    Agreement sized ⟨0, "items"⟩ "shop" [("size", .int32 5)] (.compare "size" .eq (.int32 5))
      [[("_id", .int32 1), ("size", .document [("height", .int32 3)])],
        [("_id", .int32 2), ("size", .int32 5)]] :=
  requests_agree (by rfl) (by rfl) (by rfl) (by rfl)

end Engine
end DocQuery
