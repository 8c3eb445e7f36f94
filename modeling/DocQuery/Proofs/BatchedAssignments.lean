import DocQuery.Proofs.AssignedValues
import DocQuery.Proofs.Edits
import Mathlib.Data.List.Dedup

/-
  Assignments gathered into one update, and the same assignments as updates of their own, one after
  the other: both fail, or both leave the same document, in the same order (`apply_gathered`). The
  gathered update has each field once, where it first came up, with the value that it was given
  last. So it has to be shown that a value which is overwritten later leaves no trace but its place.

  That takes two laws of storing at a path. Storing there twice is storing the second value
  (`stored_overwritten`), and a path that is in use is out of the way of one apart from it
  (`stored_swapped`). The second is wrong for a path that is not in use: its field would come to
  stand in front of the other's. Both are shown on what is in front of the names (`plant`), by
  induction on the names.
-/

namespace DocQuery

namespace Value

/-! ## A value in front of some names -/

/-- What storing a value at the end of some names makes of what is in front of them. Documents are
gone into, where there is nothing one is made, and anything else is in the way. -/
def plant (value : Value) : List String → Option Value → Option Value
  | [], _ => some value
  | name :: rest, old =>
    (old.getD (document [])).fields?.bind fun fields =>
      (plant value rest (Keyed.get? fields name)).map fun v => document (Keyed.put fields name v)

theorem plant_cons (value : Value) (name : String) (rest : List String) (fields : Document) :
    plant value (name :: rest) (some (document fields)) =
      (plant value rest (Keyed.get? fields name)).map fun v =>
        document (Keyed.put fields name v) := rfl

/-- Both behind the same name: what is stored there first is stored over. -/
theorem plant_plant_same (value other : Value) (name : String) (rest places : List String)
    (fields : Document) :
    ((plant value (name :: rest) (some (document fields))).bind fun v =>
        plant other (name :: places) (some v)) =
      ((plant value rest (Keyed.get? fields name)).bind fun v => plant other places (some v)).map
        fun v => document (Keyed.put fields name v) := by
  rw [plant_cons]
  cases plant value rest (Keyed.get? fields name) with
  | none => rfl
  | some v => simp [plant_cons, Keyed.put_put]

/-- Behind two names: neither finds what the other has stored. -/
theorem plant_plant_other (value other : Value) {name first : String} (rest places : List String)
    (fields : Document) (h : first ≠ name) :
    ((plant value (name :: rest) (some (document fields))).bind fun v =>
        plant other (first :: places) (some v)) =
      (plant value rest (Keyed.get? fields name)).bind fun v =>
        (plant other places (Keyed.get? fields first)).bind fun w =>
          some (document (Keyed.put (Keyed.put fields name v) first w)) := by
  rw [plant_cons]
  cases plant value rest (Keyed.get? fields name) with
  | none => rfl
  | some v =>
    rw [Option.map_some, Option.bind_some, Option.bind_some, plant_cons,
      Keyed.get?_put_other _ _ h, Option.map_eq_bind]
    rfl

/-- What is stored twice at the end of the same names is stored the second time. -/
theorem plant_overwritten (value other : Value) (names : List String) (old : Option Value) :
    ((plant value names old).bind fun v => plant other names (some v)) = plant other names old := by
  induction names generalizing old with
  | nil => rfl
  | cons name rest ih =>
    have hold : ∀ v, plant v (name :: rest) old =
        plant v (name :: rest) (some (old.getD (document []))) := fun _ => rfl
    rw [hold value, hold other]
    cases hfields : (old.getD (document [])).fields? with
    | none => simp [plant, hfields]
    | some fields =>
      rw [eq_document_of_fields? hfields, plant_plant_same, ih, plant_cons]

/-- Where names lead to something, storing there can be put off until something has been stored
apart from them. -/
theorem plant_swapped (value other : Value) {names places : List String}
    (hapart : FieldPath.Apart names places) {v : Value} (hfound : (v.descend names).isSome) :
    ((plant other places (some v)).bind fun w => plant value names (some w)) =
      (plant value names (some v)).bind fun w => plant other places (some w) := by
  induction names generalizing places v with
  | nil => exact absurd rfl hapart.ne_nil
  | cons name rest ih =>
    rcases places with _ | ⟨first, places⟩
    · exact absurd rfl hapart.symm.ne_nil
    · obtain ⟨u, hu⟩ := Option.isSome_iff_exists.mp hfound
      obtain ⟨fields, w, rfl, hw, hrest⟩ := descend_cons_eq_some hu
      by_cases hname : first = name
      · subst hname
        have hinside : (w.descend rest).isSome := by
          rw [hrest]
          rfl
        rw [plant_plant_same, plant_plant_same, hw, ih (FieldPath.apart_cons.mp hapart) hinside]
      · -- the name in use keeps its place, so the other one comes where it would have come
        have hkey : (Keyed.get? fields name).isSome := by
          rw [hw]
          rfl
        rw [plant_plant_other _ _ _ _ _ (Ne.symm hname), plant_plant_other _ _ _ _ _ hname,
          Option.bind_comm]
        simp only [Keyed.put_comm hkey hname]

end Value

namespace Update

open FieldPath

/-! ## One assignment after the other -/

/-- What an update leaves if it goes through. -/
def Progress.outcome? (p : Progress) : Option Document := p.result.toOption.map fun _ => p.document

/-- What an assignment leaves if it can be made. -/
def stored (d : Document) (e : String × Value) : Option Document :=
  (setPath d e.1 e.2).toOption.map Prod.fst

/-- Updates one after the other, as long as they go through. -/
def inTurn (updates : List Document) (d : Document) : Option Document :=
  updates.foldlM (fun d update => (apply update d).outcome?) d

theorem setAt_plant {value : Value} {names : List String} (hnames : names ≠ []) (d : Document) :
    (setAt value names d).toOption.map (fun r => Value.document r.1) =
      Value.plant value names (some (.document d)) := by
  induction names generalizing d with
  | nil => exact absurd rfl hnames
  | cons name rest ih =>
    rw [Value.plant_cons]
    rcases rest with _ | ⟨next, rest⟩
    · rfl
    · simp only [setAt]
      split
      · next hnone =>
        have hrest := ih (List.cons_ne_nil _ _) []
        have hnew : Value.plant value (next :: rest) none =
          Value.plant value (next :: rest) (some (.document [])) := rfl
        rw [hnone, hnew, ← hrest]
        rcases setAt value (next :: rest) [] with e | r <;> rfl
      · next fields hfields =>
        rw [hfields, ← ih (List.cons_ne_nil _ _) fields]
        rcases setAt value (next :: rest) fields with e | r <;> rfl
      · next v hother hv =>
        have hfields : v.fields? = none := by
          cases v <;> first | rfl | exact absurd rfl (hother _)
        rw [hv, Value.plant, Option.getD_some, hfields]
        rfl

theorem stored_plant (d : Document) (e : String × Value) :
    (stored d e).map Value.document = Value.plant e.2 (segments e.1) (some (.document d)) := by
  rw [← setAt_plant (segments_ne_nil e.1)]
  unfold stored setPath
  rcases setAt e.2 (segments e.1) d with _ | r <;> rfl

/-- Two assignments, on what is in front of both. -/
theorem stored_stored (d : Document) (e f : String × Value) :
    ((stored d e).bind fun d' => stored d' f).map Value.document =
      (Value.plant e.2 (segments e.1) (some (.document d))).bind fun v =>
        Value.plant f.2 (segments f.1) (some v) := by
  rw [← stored_plant]
  cases stored d e with
  | none => rfl
  | some d' => exact stored_plant d' f

theorem eq_of_map_document {x y : Option Document}
    (h : x.map Value.document = y.map Value.document) : x = y :=
  Option.map_injective (fun _ _ hsame => Value.document.inj hsame) h

theorem stored_overwritten (d : Document) (path : String) (v w : Value) :
    ((stored d (path, v)).bind fun d' => stored d' (path, w)) = stored d (path, w) := by
  refine eq_of_map_document ?_
  rw [stored_stored, Value.plant_overwritten, stored_plant]

theorem stored_swapped {d : Document} {e f : String × Value}
    (hapart : Apart (segments e.1) (segments f.1))
    (hfound : ((Value.document d).descend (segments e.1)).isSome) :
    ((stored d f).bind fun d' => stored d' e) = (stored d e).bind fun d' => stored d' f := by
  refine eq_of_map_document ?_
  rw [stored_stored, stored_stored, Value.plant_swapped _ _ hapart hfound]

theorem descend_stored_self {d d' : Document} {e : String × Value} (h : stored d e = some d') :
    (Value.document d').descend (segments e.1) = some e.2 := by
  obtain ⟨⟨_, c⟩, hset, rfl⟩ := Option.map_eq_some_iff.mp h
  exact Edit.settled_of_apply (e := ⟨e.1, some e.2⟩) hset

theorem descend_stored_apart {d d' : Document} {e : String × Value} {names : List String}
    (hapart : Apart (segments e.1) names) (h : stored d e = some d') :
    (Value.document d').descend names = (Value.document d).descend names := by
  obtain ⟨⟨_, c⟩, hset, rfl⟩ := Option.map_eq_some_iff.mp h
  exact Edit.descend_apart (e := ⟨e.1, some e.2⟩) hapart hset

/-- At a path in use, a value can be stored before or after assignments apart from it. -/
theorem stored_postponed {e : String × Value} {rest : List (String × Value)}
    (hapart : ∀ f ∈ rest, Apart (segments e.1) (segments f.1)) {d : Document}
    (hfound : ((Value.document d).descend (segments e.1)).isSome) :
    ((rest.foldlM stored d).bind fun d' => stored d' e) =
      (stored d e).bind fun d' => rest.foldlM stored d' := by
  induction rest generalizing d with
  | nil => simp
  | cons f rest ih =>
    rw [List.forall_mem_cons] at hapart
    calc (((f :: rest).foldlM stored d).bind fun d' => stored d' e)
        = (stored d f).bind fun d₁ => (rest.foldlM stored d₁).bind fun d' => stored d' e := by
          rw [List.foldlM_cons]
          exact Option.bind_assoc _ _ _
      _ = (stored d f).bind fun d₁ => (stored d₁ e).bind fun d' => rest.foldlM stored d' := by
          -- the path is in use still, since what has been stored is apart from it
          refine Option.bind_congr fun d₁ hd₁ => ih hapart.2 ?_
          rwa [descend_stored_apart hapart.1.symm hd₁]
      _ = ((stored d e).bind fun d₁ => stored d₁ f).bind fun d' => rest.foldlM stored d' := by
          rw [← stored_swapped hapart.1 hfound, Option.bind_assoc]
      _ = (stored d e).bind fun d₁ => (f :: rest).foldlM stored d₁ := Option.bind_assoc _ _ _

/-- An assignment that is put in the place of an earlier one at its path does there what it does at
the end. -/
theorem foldlM_put {e : String × Value} {m : List (String × Value)} (hkeys : (Keyed.keys m).Nodup)
    (hapart : ∀ f ∈ m, e.1 ≠ f.1 → Apart (segments e.1) (segments f.1)) (d : Document) :
    (Keyed.put m e.1 e.2).foldlM stored d = (m.foldlM stored d).bind fun d' => stored d' e := by
  induction m generalizing d with
  | nil => simp [Keyed.put]
  | cons f m ih =>
    obtain ⟨path, v⟩ := f
    obtain ⟨hfirst, hrest⟩ := List.nodup_cons.mp hkeys
    rw [List.forall_mem_cons] at hapart
    rw [List.foldlM_cons]
    by_cases hpath : path = e.1
    · -- the first value is stored over: right away, or after all that comes in between
      subst hpath
      have hothers : ∀ f ∈ m, Apart (segments e.1) (segments f.1) := by
        intro f hf
        refine hapart.2 f hf fun hsame => hfirst ?_
        rw [hsame]
        exact List.mem_map_of_mem hf
      rw [Keyed.put, if_pos rfl, List.foldlM_cons]
      calc ((stored d (e.1, e.2)).bind fun d₁ => m.foldlM stored d₁)
          = (stored d (e.1, v)).bind fun d₁ =>
              (stored d₁ e).bind fun d' => m.foldlM stored d' := by
            rw [← stored_overwritten d e.1 v e.2, Option.bind_assoc]
        _ = (stored d (e.1, v)).bind fun d₁ =>
              (m.foldlM stored d₁).bind fun d' => stored d' e := by
            refine Option.bind_congr fun d₁ hd₁ => (stored_postponed hothers ?_).symm
            rw [descend_stored_self hd₁]
            rfl
        _ = _ := (Option.bind_assoc _ _ _).symm
    · rw [Keyed.put, if_neg hpath, List.foldlM_cons]
      calc ((stored d (path, v)).bind fun d₁ => (Keyed.put m e.1 e.2).foldlM stored d₁)
          = (stored d (path, v)).bind fun d₁ =>
              (m.foldlM stored d₁).bind fun d' => stored d' e := by
            simp only [ih hrest hapart.2]
        _ = _ := (Option.bind_assoc _ _ _).symm

/-- Whether any two assignments are at the same path or at paths apart from one another. -/
def Separate (assigned : List (String × Value)) : Prop :=
  ∀ e ∈ assigned, ∀ f ∈ assigned, e.1 ≠ f.1 → Apart (segments e.1) (segments f.1)

instance (assigned : List (String × Value)) : Decidable (Separate assigned) :=
  inferInstanceAs (Decidable (∀ e ∈ assigned, ∀ f ∈ assigned, _ → _))

/-- Assignments gathered, each path once, do what all of them do one after the other. -/
theorem foldlM_ofList {assigned : List (String × Value)} (h : Separate assigned) (d : Document) :
    (Keyed.ofList assigned).foldlM stored d = assigned.foldlM stored d := by
  induction assigned using List.reverseRecOn with
  | nil => rfl
  | append_singleton assigned e ih =>
    have hearlier : Separate assigned := fun f hf g hg =>
      h f (List.mem_append_left _ hf) g (List.mem_append_left _ hg)
    have hapart : ∀ f ∈ Keyed.ofList assigned, e.1 ≠ f.1 →
        Apart (segments e.1) (segments f.1) := by
      intro f hf hne
      obtain ⟨g, hg, hpath⟩ := List.mem_map.mp
        (Keyed.mem_keys_ofList.mp (List.mem_map_of_mem (f := Prod.fst) hf))
      rw [← hpath] at hne ⊢
      exact h e (by simp) g (List.mem_append_left _ hg) hne
    rw [Keyed.ofList_append_single, foldlM_put (Keyed.nodup_keys_ofList _) hapart, ih hearlier,
      List.foldlM_append]
    simp

/-! ## Gathered into an update -/

theorem outcome?_setAll (d : Document) (changed : Bool) (fields : List (String × Value)) :
    (setAll d changed fields).outcome? = fields.foldlM stored d := by
  induction fields generalizing d changed with
  | nil => rfl
  | cons e rest ih =>
    obtain ⟨path, v⟩ := e
    rw [setAll, List.foldlM_cons]
    unfold stored
    dsimp only
    rcases setPath d path v with _ | ⟨d₁, c₁⟩
    · rfl
    · exact ih d₁ _

theorem outcome?_updateOf {assigned : List (String × Value)}
    (hfew : (Keyed.ofList assigned).length ≤ maxFields) (d : Document) :
    (apply (Steps.updateOf assigned) d).outcome? =
      if Keyed.has assigned "_id" then none else (Keyed.ofList assigned).foldlM stored d := by
  have hoperator : apply (Steps.updateOf assigned) d =
      applyOperator d false "$set" (.document (Keyed.ofList assigned)) :=
    applyOperators_single d false "$set" _
  rw [hoperator, applyOperator, checkedFields, if_neg (Nat.not_lt.mpr hfew), Keyed.has_ofList]
  cases Keyed.has assigned "_id" with
  | true => rfl
  | false => exact outcome?_setAll d false _

theorem outcome?_single (e : String × Value) (d : Document) :
    (apply [("$set", .document [e])] d).outcome? =
      if e.1 = "_id" then none else stored d e := by
  obtain ⟨path, v⟩ := e
  have hsingle : apply [("$set", .document [(path, v)])] d = _ := apply_updateOf_single path v d
  rw [hsingle]
  by_cases hid : path = "_id"
  · rw [if_pos hid, if_pos hid]
    rfl
  · rw [if_neg hid, if_neg hid]
    unfold stored
    dsimp only
    rcases setPath d path v with _ | ⟨d', c⟩ <;> rfl

/-- An update for each assignment, one after the other. -/
theorem inTurn_single (assigned : List (String × Value)) (d : Document) :
    inTurn (assigned.map fun e => [("$set", .document [e])]) d =
      if Keyed.has assigned "_id" then none else assigned.foldlM stored d := by
  unfold inTurn
  induction assigned generalizing d with
  | nil => rfl
  | cons e rest ih =>
    obtain ⟨path, v⟩ := e
    rw [List.map_cons, List.foldlM_cons, outcome?_single]
    simp only [ih]
    by_cases hid : path = "_id"
    · simp [hid, Keyed.has]
    · have hothers : Keyed.has ((path, v) :: rest) "_id" = Keyed.has rest "_id" := by
        unfold Keyed.has
        rw [Keyed.get?_cons_other hid]
      rw [if_neg hid, hothers]
      by_cases hlater : Keyed.has rest "_id" = true
      · simp [hlater]
      · simp [hlater]

/-- The update that assignments are gathered into, from the first of them on. -/
theorem gathered_eq (assigned : List (String × Value)) :
    (assigned.foldl (fun spec e => some (Fragment.assign spec e.1 e.2)) none) =
      if assigned = [] then none else some (Steps.updateOf assigned) := by
  induction assigned using List.reverseRecOn with
  | nil => rfl
  | append_singleton assigned e ih =>
    rw [List.foldl_append, ih, List.foldl_cons, List.foldl_nil, Steps.assign_updateOf,
      if_neg (List.append_ne_nil_of_right_ne_nil _ (List.cons_ne_nil _ _))]

/-- As many fields are gathered as there are different ones. -/
theorem length_ofList (assigned : List (String × Value)) :
    (Keyed.ofList assigned).length = (assigned.map Prod.fst).dedup.length := by
  have hkeys : (Keyed.keys (Keyed.ofList assigned)).Perm (assigned.map Prod.fst).dedup := by
    rw [List.perm_ext_iff_of_nodup (Keyed.nodup_keys_ofList _) (List.nodup_dedup _)]
    intro path
    rw [Keyed.mem_keys_ofList, List.mem_dedup]
    rfl
  rw [← hkeys.length_eq, Keyed.keys, List.length_map]

/-- Assignments gathered into one update and the same assignments as updates of their own, in their
order, both fail, or both leave the same document, the order of its fields included: for any
assignments to at most as many different fields as an update may touch, if any two of the fields are
apart from one another. -/
theorem apply_gathered {assigned : List (String × Value)} (hne : assigned ≠ [])
    (hfew : (assigned.map Prod.fst).dedup.length ≤ maxFields) (h : Separate assigned)
    (d : Document) :
    ∃ spec, assigned.foldl (fun spec e => some (Fragment.assign spec e.1 e.2)) none = some spec ∧
      (apply spec d).outcome? = inTurn (assigned.map fun e => [("$set", .document [e])]) d := by
  refine ⟨Steps.updateOf assigned, by rw [gathered_eq, if_neg hne], ?_⟩
  rw [← length_ofList] at hfew
  rw [outcome?_updateOf hfew, inTurn_single, foldlM_ofList h]

/-- A shelf, a width, another shelf after all, and a height. -/
def takenDown : List (String × Value) :=
  [("place.shelf", .int32 4), ("size.width", .int32 5), ("place.shelf", .int32 6),
    ("size.height", .int32 9)]

/-- The shelf stays in front, where it has been put first. -/
theorem apply_gathered_takenDown :
    ∃ spec, takenDown.foldl (fun spec e => some (Fragment.assign spec e.1 e.2)) none = some spec ∧
      (apply spec [("_id", .int32 1)]).outcome? =
        inTurn (takenDown.map fun e => [("$set", .document [e])]) [("_id", .int32 1)] ∧
      inTurn (takenDown.map fun e => [("$set", .document [e])]) [("_id", .int32 1)] =
        some [("_id", .int32 1), ("place", .document [("shelf", .int32 6)]),
          ("size", .document [("width", .int32 5), ("height", .int32 9)])] := by
  obtain ⟨spec, hspec, hsame⟩ := apply_gathered (show takenDown ≠ [] by decide)
    (show _ ≤ maxFields by decide) (show Separate takenDown by decide) [("_id", .int32 1)]
  exact ⟨spec, hspec, hsame, by rfl⟩

end Update

end DocQuery
