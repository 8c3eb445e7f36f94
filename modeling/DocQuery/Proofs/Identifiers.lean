import DocQuery.Proofs.Actions
import Mathlib.Data.List.Forall2

/-
  The identifiers of stored documents. An update names fields by paths, and the check that it leaves
  `_id` alone sees only the path `_id` itself: `update_idKept` says what is true of every update,
  and `uniqueIds_after` that identifiers stay unique over every run whose updates do not go inside
  an identifier.
-/

namespace DocQuery

namespace Update

/-! ## Where an update goes -/

/-- The paths that one operator sets or removes. -/
def operatorPaths (op : String) (operand : Value) : List String :=
  if op = "$set" ∨ op = "$unset" then Keyed.keys (operand.fields?.getD []) else []

/-- The paths that an update sets or removes. -/
def paths (update : Document) : List String := update.flatMap fun e => operatorPaths e.1 e.2

/-- The name inside of `_id` that a path with `_id` as the first of several names goes to. -/
def idPart? (path : String) : Option String :=
  match FieldPath.segments path with
  | first :: name :: _ => if first = "_id" then some name else none
  | _ => none

/-- An identifier is kept: it is the same value, or it is a document, one of the paths goes inside
of it, and it is a document still, with the same under every name that no path goes to. -/
def IdKept (paths : List String) (d d' : Document) : Prop :=
  ∀ v, Keyed.get? d "_id" = some v → Keyed.get? d' "_id" = some v ∨
    (∃ path ∈ paths, (idPart? path).isSome) ∧ ∃ fields fields', v = .document fields ∧
      Keyed.get? d' "_id" = some (.document fields') ∧
      ∀ name, (∀ path ∈ paths, idPart? path ≠ some name) →
        Keyed.get? fields' name = Keyed.get? fields name

theorem IdKept.refl (paths : List String) (d : Document) : IdKept paths d d :=
  fun _ hv => .inl hv

theorem IdKept.of_eq {paths : List String} {d d' : Document}
    (h : Keyed.get? d' "_id" = Keyed.get? d "_id") : IdKept paths d d' :=
  fun _ hv => .inl (h.trans hv)

theorem IdKept.of_absent {paths : List String} {d d' : Document}
    (h : Keyed.get? d "_id" = none) : IdKept paths d d' := by
  intro v hv
  rw [h] at hv
  cases hv

theorem IdKept.trans {paths : List String} {d d' d'' : Document} (h : IdKept paths d d')
    (h' : IdKept paths d' d'') : IdKept paths d d'' := by
  intro v hv
  rcases h v hv with hsame | ⟨hpath, fields, fields', rfl, hid, hrest⟩
  · exact h' v hsame
  · right
    rcases h' _ hid with hsame | ⟨-, fields₁, fields'', he, hid', hrest'⟩
    · exact ⟨hpath, fields, fields', rfl, hsame, hrest⟩
    · cases he
      exact ⟨hpath, fields, fields'', rfl, hid',
        fun name hname => (hrest' name hname).trans (hrest name hname)⟩

/-- With no path going inside of it, an identifier is kept as it is. -/
theorem IdKept.get?_eq {paths : List String} {d d' : Document} (h : IdKept paths d d')
    (hspared : ∀ path ∈ paths, idPart? path = none) {v : Value}
    (hv : Keyed.get? d "_id" = some v) : Keyed.get? d' "_id" = some v := by
  rcases h v hv with hsame | ⟨⟨path, hpath, hpart⟩, -⟩
  · exact hsame
  · rw [hspared path hpath] at hpart
    cases hpart

/-! ## One path -/

theorem eq_of_segments {path name : String} (h : FieldPath.segments path = [name]) :
    path = name := by
  obtain ⟨cs, hsplit, hname⟩ := List.map_eq_singleton_iff.mp h
  have hjoin := Text.join_split '.' path.toList
  rw [hsplit] at hjoin
  rw [← hname, show cs = path.toList from hjoin, String.ofList_toList]

/-- A path other than `_id` starts with another name, or it goes inside of `_id`. -/
theorem segments_cases {path : String} (hpath : path ≠ "_id") :
    (∃ first rest, FieldPath.segments path = first :: rest ∧ first ≠ "_id") ∨
    (∃ name rest, FieldPath.segments path = "_id" :: name :: rest ∧ idPart? path = some name) := by
  match hs : FieldPath.segments path with
  | [] => exact absurd hs (FieldPath.segments_ne_nil path)
  | first :: rest =>
    by_cases hfirst : first = "_id"
    · subst hfirst
      match rest with
      | [] => exact absurd (eq_of_segments hs) hpath
      | name :: rest => exact .inr ⟨name, rest, rfl, by simp only [idPart?, hs, if_true]⟩
    · exact .inl ⟨first, rest, rfl, hfirst⟩

/-- Setting a value inside of what is under a name: there is a document, or there is nothing and a
document is made. -/
theorem setAt_eq_ok {value : Value} {name next : String} {rest : List String} {d d' : Document}
    {c : Bool} (hset : setAt value (name :: next :: rest) d = .ok (d', c)) :
    ∃ fields sub, (Keyed.get? d name = none ∧ fields = [] ∨
        Keyed.get? d name = some (.document fields)) ∧
      setAt value (next :: rest) fields = .ok (sub, c) ∧
      d' = Keyed.put d name (.document sub) := by
  simp only [setAt] at hset
  split at hset
  · next hnone =>
    rcases hsub : setAt value (next :: rest) [] with e | ⟨sub, changed⟩
    · rw [hsub] at hset
      cases hset
    · rw [hsub] at hset
      cases hset
      exact ⟨[], sub, .inl ⟨hnone, rfl⟩, hsub, rfl⟩
  · next fields hfields =>
    rcases hsub : setAt value (next :: rest) fields with e | ⟨sub, changed⟩
    · rw [hsub] at hset
      cases hset
    · rw [hsub] at hset
      cases hset
      exact ⟨fields, sub, .inr hfields, hsub, rfl⟩
  · cases hset

/-- Setting a value touches nothing but what is under the first name. -/
theorem get?_setAt_other {value : Value} {name other : String} {rest : List String}
    {d d' : Document} {c : Bool} (hset : setAt value (name :: rest) d = .ok (d', c))
    (hne : other ≠ name) : Keyed.get? d' other = Keyed.get? d other := by
  cases rest with
  | nil =>
    cases hset
    exact Keyed.get?_put_other _ _ hne
  | cons next rest =>
    obtain ⟨fields, sub, -, -, rfl⟩ := setAt_eq_ok hset
    exact Keyed.get?_put_other _ _ hne

theorem get?_unsetAt_other {name other : String} (rest : List String) (d : Document)
    (hne : other ≠ name) :
    Keyed.get? (unsetAt (name :: rest) d).1 other = Keyed.get? d other := by
  cases rest with
  | nil => exact Keyed.get?_erase_other _ hne
  | cons next rest =>
    simp only [unsetAt]
    split
    · exact Keyed.get?_put_other _ _ hne
    · rfl

theorem IdKept.of_inside {paths : List String} {path name : String} (hmem : path ∈ paths)
    (hpart : idPart? path = some name) {d d' fields fields' : Document}
    (hv : Keyed.get? d "_id" = some (.document fields))
    (hid : Keyed.get? d' "_id" = some (.document fields'))
    (hother : ∀ other, other ≠ name → Keyed.get? fields' other = Keyed.get? fields other) :
    IdKept paths d d' := by
  intro v hv'
  cases hv.symm.trans hv'
  refine .inr ⟨⟨path, hmem, by rw [hpart]; rfl⟩, fields, fields', rfl, hid, ?_⟩
  intro other hnot
  refine hother other ?_
  rintro rfl
  exact hnot path hmem hpart

section OnePath

variable {paths : List String} {path : String} (hmem : path ∈ paths) (hpath : path ≠ "_id")
include hmem hpath

theorem idKept_setPath {value : Value} {d d' : Document} {c : Bool}
    (hset : setPath d path value = .ok (d', c)) : IdKept paths d d' := by
  unfold setPath at hset
  split at hset
  · next r hat =>
    cases hset
    rcases segments_cases hpath with ⟨first, rest, hs, hfirst⟩ | ⟨name, rest, hs, hpart⟩
    · rw [hs] at hat
      exact .of_eq (get?_setAt_other hat hfirst.symm)
    · rw [hs] at hat
      obtain ⟨fields, sub, hv, hsub, rfl⟩ := setAt_eq_ok hat
      rcases hv with ⟨hnone, -⟩ | hv
      · exact .of_absent hnone
      · exact .of_inside hmem hpart hv (Keyed.get?_put_self _ _ _)
          (fun other hne => get?_setAt_other hsub hne)
  · cases hset

theorem idKept_unsetPath (d : Document) : IdKept paths d (unsetPath d path).1 := by
  unfold unsetPath
  rcases segments_cases hpath with ⟨first, rest, hs, hfirst⟩ | ⟨name, rest, hs, hpart⟩
  · rw [hs]
    exact .of_eq (get?_unsetAt_other rest d hfirst.symm)
  · simp only [hs, unsetAt]
    split
    · next fields hv =>
      exact .of_inside hmem hpart hv (Keyed.get?_put_self _ _ _)
        (fun other hne => get?_unsetAt_other rest fields hne)
    · exact .refl paths d

end OnePath

/-! ## A whole update -/

theorem checkedFields_eq_ok_iff {op : String} {operand : Value} {fields : List (String × Value)} :
    checkedFields op operand = .ok fields ↔
      operand = .document fields ∧ fields.length ≤ maxFields ∧ Keyed.has fields "_id" = false := by
  unfold checkedFields
  cases operand with
  | document fields' =>
    dsimp only
    rw [Value.document.injEq]
    split
    · next hmany =>
      constructor
      · intro hchecked
        cases hchecked
      · rintro ⟨rfl, hfew, -⟩
        exact absurd hfew (Nat.not_le.mpr hmany)
    · next hfew =>
      split
      · next hid =>
        constructor
        · intro hchecked
          cases hchecked
        · rintro ⟨rfl, -, hnone⟩
          rw [hid] at hnone
          cases hnone
      · next hid =>
        rw [Except.ok.injEq]
        constructor
        · rintro rfl
          exact ⟨rfl, Nat.not_lt.mp hfew, by simpa using hid⟩
        · exact And.left
  | _ =>
    constructor
    · intro hchecked
      cases hchecked
    · intro h
      cases h.1

section Keeping

variable {P : Document → Prop}

theorem setAll_keeps {fields : List (String × Value)} (hstep : ∀ e ∈ fields, ∀ d d' c, P d →
      setPath d e.1 e.2 = .ok (d', c) → P d') {d : Document} (hd : P d) (changed : Bool) :
    P (setAll d changed fields).document := by
  induction fields generalizing d changed with
  | nil => exact hd
  | cons e rest ih =>
    obtain ⟨path, value⟩ := e
    rw [setAll]
    split
    · next d' c hset =>
      exact ih (fun e he => hstep e (List.mem_cons_of_mem _ he))
        (hstep _ List.mem_cons_self d d' c hd hset) _
    · exact hd

theorem unsetAll_keeps {fields : List (String × Value)}
    (hstep : ∀ e ∈ fields, ∀ d, P d → P (unsetPath d e.1).1) {d : Document} (hd : P d)
    (changed : Bool) : P (unsetAll d changed fields).document := by
  induction fields generalizing d changed with
  | nil => exact hd
  | cons e rest ih =>
    obtain ⟨path, value⟩ := e
    rw [unsetAll]
    exact ih (fun e he => hstep e (List.mem_cons_of_mem _ he)) (hstep _ List.mem_cons_self d hd) _

/-- What every path of an operator keeps, the operator keeps; `_id` itself is none of them. -/
theorem applyOperator_keeps {op : String} {operand : Value}
    (hset : ∀ path ∈ operatorPaths op operand, path ≠ "_id" → ∀ value d d' c, P d →
      setPath d path value = .ok (d', c) → P d')
    (hunset : ∀ path ∈ operatorPaths op operand, path ≠ "_id" → ∀ d, P d → P (unsetPath d path).1)
    {d : Document} (hd : P d) (changed : Bool) : P (applyOperator d changed op operand).document := by
  unfold applyOperator
  split
  · exact hd
  · next fields hchecked =>
    obtain ⟨rfl, -, hid⟩ := checkedFields_eq_ok_iff.mp hchecked
    have hne : ∀ e ∈ fields, e.1 ≠ "_id" := by
      intro e he hkey
      have hmem : "_id" ∈ Keyed.keys fields := hkey ▸ List.mem_map_of_mem he
      rw [Keyed.mem_keys_iff] at hmem
      exact absurd hmem (by simpa [Keyed.has] using hid)
    have hpaths : op = "$set" ∨ op = "$unset" → ∀ e ∈ fields,
        e.1 ∈ operatorPaths op (.document fields) := by
      intro hop e he
      unfold operatorPaths
      rw [if_pos hop]
      exact List.mem_map_of_mem he
    split
    · next hop =>
      exact setAll_keeps (fun e he => hset e.1 (hpaths (.inl hop) e he) (hne e he) e.2) hd changed
    · split
      · next hop =>
        exact unsetAll_keeps (fun e he => hunset e.1 (hpaths (.inr hop) e he) (hne e he)) hd changed
      · exact hd

theorem applyOperators_keeps {operators : List (String × Value)}
    (hset : ∀ path ∈ paths operators, path ≠ "_id" → ∀ value d d' c, P d →
      setPath d path value = .ok (d', c) → P d')
    (hunset : ∀ path ∈ paths operators, path ≠ "_id" → ∀ d, P d → P (unsetPath d path).1)
    {d : Document} (hd : P d) (changed : Bool) :
    P (applyOperators d changed operators).document := by
  induction operators generalizing d changed with
  | nil => exact hd
  | cons e rest ih =>
    obtain ⟨op, operand⟩ := e
    have hhere : ∀ path ∈ operatorPaths op operand, path ∈ paths ((op, operand) :: rest) :=
      fun path hpath => List.mem_append_left _ hpath
    have hthere : ∀ path ∈ paths rest, path ∈ paths ((op, operand) :: rest) :=
      fun path hpath => List.mem_append_right _ hpath
    have hone : P (applyOperator d changed op operand).document :=
      applyOperator_keeps (fun path hpath => hset path (hhere path hpath))
        (fun path hpath => hunset path (hhere path hpath)) hd changed
    rw [applyOperators]
    split
    · next d' c happly =>
      rw [happly] at hone
      exact ih (fun path hpath => hset path (hthere path hpath))
        (fun path hpath => hunset path (hthere path hpath)) hone c
    · exact hone

end Keeping

/-- An update keeps the identifier of a document, also one that fails half-way. -/
theorem apply_idKept (update d : Document) :
    IdKept (paths update) d (apply update d).document := by
  unfold apply
  split
  · exact .refl _ d
  · exact applyOperators_keeps (P := IdKept (paths update) d)
      (fun path hmem hpath value d' d'' c hd hset => hd.trans (idKept_setPath hmem hpath hset))
      (fun path hmem hpath d' hd => hd.trans (idKept_unsetPath hmem hpath d'))
      (.refl _ d) false

end Update

/-- What an update that goes through makes of one document, or leaves, relates what an update of
matches leaves to what was there, place by place. -/
theorem updateMatching_forall₂ {R : Document → Document → Prop} {f : Filter} {update : Document}
    {multi : Bool} (hrefl : ∀ d, R d d) (happly : ∀ d, R d (Update.apply update d).document)
    {docs docs' : List Document} {matched modified : Nat}
    (h : updateMatching f update multi docs = .ok (docs', matched, modified)) :
    List.Forall₂ R docs docs' := by
  induction docs generalizing docs' matched modified with
  | nil =>
    cases h
    exact .nil
  | cons d rest ih =>
    rw [updateMatching] at h
    cases hmatch : f.eval d with
    | false =>
      rcases hrest : updateMatching f update multi rest with e | ⟨rest', m, n⟩
      · simp [hmatch, hrest] at h
      · simp only [hmatch, hrest, Bool.false_eq_true, if_false] at h
        cases h
        exact .cons (hrefl d) (ih hrest)
    | true =>
      have hd := happly d
      rcases hone : Update.apply update d with ⟨d', e | changed⟩
      · simp [hmatch, hone] at h
      · rw [hone] at hd
        cases multi with
        | false =>
          simp only [hmatch, hone, Bool.false_eq_true, if_true, if_false] at h
          cases h
          exact .cons hd (List.forall₂_same.mpr fun d _ => hrefl d)
        | true =>
          rcases hrest : updateMatching f update true rest with e | ⟨rest', m, n⟩
          · simp [hmatch, hone, hrest] at h
          · simp only [hmatch, hone, hrest, if_true] at h
            cases h
            exact .cons hd (ih hrest)

namespace Engine

/-! ## Updates of stored documents -/

/-- A request leaves a collection as it was, or it goes to that collection and leaves what it is to
leave there. -/
theorem perform_documents (g : Engine) (h : Handle) (r : Request) (database collection : String) :
    (g.perform h r).2.store.documents database collection = g.store.documents database collection ∨
    h.collection = collection ∧ ∃ report,
      r.outcome g.store (g.store.documents database collection) =
        .ok (report, (g.perform h r).2.store.documents database collection) := by
  have hend := g.performed h r
  generalize (g.perform h r).1 = res at hend
  generalize (g.perform h r).2 = g' at hend ⊢
  cases hend with
  | closed hclosed => exact .inl rfl
  | refused hopen hout hsame hfiles => exact .inl (documents_congr hsame.databases _ _)
  | found hopen hr hout hsame hfiles => exact .inl (documents_congr hsame.databases _ _)
  | unsaved hopen hr hout hsave hsame => exact .inl (documents_congr hsame.databases _ _)
  | @saved database' report docs _ hopen hr hout hsave hreplaced =>
    by_cases hplace : (database, collection) = (database', h.collection)
    · cases hplace
      rw [← hreplaced.leaves.here] at hout
      exact .inr ⟨rfl, report, hout⟩
    · exact .inl (hreplaced.leaves.elsewhere _ _ hplace)

theorem outcome_update_idKept {s : Store} {docs docs' : List Document} {filter update : Document}
    {multi : Bool} {report : Report}
    (h : Request.outcome s docs (.update filter update multi) = .ok (report, docs')) :
    List.Forall₂ (Update.IdKept (Update.paths update)) docs docs' := by
  dsimp only [Request.outcome] at h
  split at h
  · cases h
  · split at h
    · cases h
    · next hupdate =>
      cases h
      exact updateMatching_forall₂ (Update.IdKept.refl _) (Update.apply_idKept update) hupdate

/-- An update keeps the identifier of every document that it is applied to and of every stored
document. All that it can change is what is inside of an identifier that is a document, under the
names that its paths go to. -/
theorem update_idKept (update : Document) :
    (∀ d, Update.IdKept (Update.paths update) d (Update.apply update d).document) ∧
    ∀ (g : Engine) (h : Handle) (filter : Document) (multi : Bool) (database collection : String),
      List.Forall₂ (Update.IdKept (Update.paths update)) (g.store.documents database collection)
        ((g.update h filter update multi).2.store.documents database collection) := by
  refine ⟨Update.apply_idKept update, ?_⟩
  intro g h filter multi database collection
  show List.Forall₂ _ _
    ((g.perform h (.update filter update multi)).2.store.documents database collection)
  rcases g.perform_documents h (.update filter update multi) database collection with
    hsame | ⟨-, report, hout⟩
  · rw [hsame]
    exact List.forall₂_same.mpr fun d _ => .refl _ d
  · exact outcome_update_idKept hout

/-- An update that goes through can change an identifier. -/
theorem not_update_keeps_id :
    ¬ ∀ (update d d' : Document) (changed : Bool) (v : Value),
      Update.apply update d = ⟨d', .ok changed⟩ → Keyed.get? d "_id" = some v →
        ∃ w, Keyed.get? d' "_id" = some w ∧ v.same w = true := by
  intro hkept
  obtain ⟨w, hw, hsame⟩ := hkept [("$set", .document [("_id.x", .int32 2)])]
    [("_id", .document [("x", .int32 1)]), ("n", .int32 1)]
    [("_id", .document [("x", .int32 2)]), ("n", .int32 1)] true (.document [("x", .int32 1)])
    (by rfl) (by rfl)
  cases hw
  exact absurd hsame (by decide)

/-! ## Unique identifiers -/

/-- Whether the identifier of a document is alike to that of another. -/
def SameId (d e : Document) : Prop :=
  ∃ v w, Keyed.get? d "_id" = some v ∧ Keyed.get? e "_id" = some w ∧ v.alike w = true

/-- Every document has an identifier, and none is alike to that of a later document. -/
structure UniqueIds (docs : List Document) : Prop where
  present : ∀ d ∈ docs, Keyed.has d "_id" = true
  apart : docs.Pairwise fun d e => ¬ SameId d e

theorem UniqueIds.sublist {docs docs' : List Document} (h : UniqueIds docs)
    (hsub : docs'.Sublist docs) : UniqueIds docs' :=
  ⟨fun d hd => h.present d (hsub.subset hd), h.apart.sublist hsub⟩

theorem idInUse_eq_true {docs : List Document} {id : Value} :
    Store.idInUse docs id = true ↔
      ∃ e ∈ docs, ∃ v, Keyed.get? e "_id" = some v ∧ v.alike id = true := by
  unfold Store.idInUse
  rw [List.any_eq_true]
  refine exists_congr fun e => and_congr_right fun _ => ?_
  cases Keyed.get? e "_id" with
  | none => simp
  | some v => simp

theorem UniqueIds.append {docs : List Document} (h : UniqueIds docs) {d : Document} {id : Value}
    (hid : Keyed.get? d "_id" = some id) (hfree : Store.idInUse docs id = false) :
    UniqueIds (docs ++ [d]) := by
  refine ⟨?_, ?_⟩
  · intro e he
    rcases List.mem_append.mp he with he | he
    · exact h.present e he
    · rw [List.mem_singleton.mp he, Keyed.has, hid]
      rfl
  · refine List.pairwise_append.mpr ⟨h.apart, List.pairwise_singleton _ _, ?_⟩
    rintro e he d' hd' ⟨v, w, hv, hw, halike⟩
    rw [List.mem_singleton.mp hd', hid] at hw
    cases hw
    exact Bool.false_ne_true (hfree.symm.trans (idInUse_eq_true.mpr ⟨e, he, v, hv, halike⟩))

/-- Documents that keep their identifiers keep them unique. -/
theorem UniqueIds.of_forall₂ {docs docs' : List Document} (h : UniqueIds docs)
    (hids : List.Forall₂ (fun d d' => ∀ v, Keyed.get? d "_id" = some v →
      Keyed.get? d' "_id" = some v) docs docs') : UniqueIds docs' := by
  let id? : Document → Option Value := fun d => Keyed.get? d "_id"
  have hmap : docs'.map id? = docs.map id? := by
    have hpresent := h.present
    clear h
    induction hids with
    | nil => rfl
    | cons hd hrest ih =>
      obtain ⟨hhere, hothers⟩ := List.forall_mem_cons.mp hpresent
      obtain ⟨v, hv⟩ := Option.isSome_iff_exists.mp hhere
      rw [List.map_cons, List.map_cons, ih hothers]
      exact congrArg (· :: _) ((hd v hv).trans hv.symm)
  refine ⟨?_, ?_⟩
  · intro d' hd'
    have hmem : id? d' ∈ docs.map id? := hmap ▸ List.mem_map_of_mem hd'
    obtain ⟨d, hd, he⟩ := List.mem_map.mp hmem
    have hhas := h.present d hd
    unfold Keyed.has at hhas ⊢
    rw [show Keyed.get? d' "_id" = Keyed.get? d "_id" from he.symm]
    exact hhas
  · let apart : Option Value → Option Value → Prop :=
      fun o o' => ¬ ∃ v w, o = some v ∧ o' = some w ∧ v.alike w = true
    have happart : (docs.map id?).Pairwise apart := List.pairwise_map.mpr h.apart
    rw [← hmap] at happart
    exact List.pairwise_map.mp happart

/-- An update that leaves identifiers alone; every other request does. -/
def Request.SparesIds : Request → Prop
  | .update _ spec _ => ∀ path ∈ Update.paths spec, Update.idPart? path = none
  | _ => True

/-- What a request leaves in a collection has unique identifiers if the collection had them. -/
theorem UniqueIds.outcome {s : Store} {docs docs' : List Document} {r : Request} {report : Report}
    (h : UniqueIds docs) (hspares : Request.SparesIds r)
    (hout : r.outcome s docs = .ok (report, docs')) : UniqueIds docs' := by
  cases r with
  | find filter =>
    dsimp only [Request.outcome] at hout
    split at hout
    · cases hout
    · cases hout
      exact h
  | remove filter =>
    dsimp only [Request.outcome] at hout
    split at hout
    · cases hout
    · cases hout
      exact h.sublist List.filter_sublist
  | update filter spec multi =>
    refine h.of_forall₂ ((outcome_update_idKept hout).imp ?_)
    intro d d' hkept v hv
    exact hkept.get?_eq hspares hv
  | insert d =>
    dsimp only [Request.outcome] at hout
    split at hout
    · cases hout
    · next hfree =>
      cases hout
      exact h.append (s.get?_withId d) (by simpa using hfree)

theorem get?_withDatabase {databases : Keyed String Database} {database : String} {db : Database}
    (hthere : Keyed.get? databases database = some db) (name : String) (db' : Database) :
    Keyed.get? (withDatabase databases name db') database = some db := by
  unfold withDatabase
  split
  · exact hthere
  · next hnew =>
    have hne : database ≠ name := by
      rintro rfl
      rw [hthere] at hnew
      cases hnew
    rw [Keyed.get?_put_other _ _ hne, hthere]

/-- A collection of a database that the store has, with unique identifiers. -/
structure UniqueIn (database collection : String) (g : Engine) : Prop where
  there : Keyed.has g.store.databases database = true
  unique : UniqueIds (g.store.documents database collection)

theorem UniqueIn.congr {database collection : String} {g g' : Engine}
    (h : UniqueIn database collection g) (hsame : g'.store.databases = g.store.databases) :
    UniqueIn database collection g' := by
  refine ⟨?_, ?_⟩
  · rw [hsame]
    exact h.there
  · rw [documents_congr hsame]
    exact h.unique

theorem UniqueIn.connect {database collection : String} {g : Engine}
    (h : UniqueIn database collection g) (uri : String) :
    UniqueIn database collection (g.connect uri).2 := by
  have hend := g.connecting uri
  generalize (g.connect uri).1 = res at hend
  generalize (g.connect uri).2 = g' at hend ⊢
  cases hend with
  | refused hwhy hsame => exact h.congr hsame.databases
  | @opened name db _ hopened =>
    obtain ⟨db', hdb'⟩ := Option.isSome_iff_exists.mp h.there
    have hget := get?_withDatabase hdb' name db
    rw [← hopened.databases] at hget
    refine ⟨?_, ?_⟩
    · rw [Keyed.has, hget]
      rfl
    · have hunique := h.unique
      unfold Store.documents at hunique ⊢
      rw [hdb'] at hunique
      rw [hget]
      exact hunique

theorem UniqueIn.perform {collection : String} {database : String} {g : Engine}
    (h : UniqueIn database collection g) {handle : Handle} {r : Request}
    (hspares : handle.collection = collection → Request.SparesIds r) :
    UniqueIn database collection (g.perform handle r).2 := by
  refine ⟨?_, ?_⟩
  · obtain ⟨s, hs, hsame | ⟨database', collection', docs, hset⟩⟩ := g.perform_changed handle r
    · rw [hsame, hs]
      exact h.there
    · rw [hset]
      exact Keyed.has_put (hs ▸ h.there) _ _
  · rcases g.perform_documents handle r database collection with hsame | ⟨hcoll, report, hout⟩
    · rw [hsame]
      exact h.unique
    · exact h.unique.outcome (hspares hcoll) hout

/-- What an action on a collection spares. -/
def Action.SparesIds (collection : String) : Action → Prop
  | .request h r => h.collection = collection → Request.SparesIds r
  | _ => True

/-- Every action leaves the identifiers of a collection unique. -/
theorem UniqueIn.act {database collection : String} {g : Engine} {a : Action}
    (h : UniqueIn database collection g) (hspares : a.SparesIds collection) :
    UniqueIn database collection (g.act a).2 := by
  cases a with
  | connect uri => exact h.connect uri
  | collection conn name =>
    rcases g.collection_cases conn name with ⟨-, hend⟩ | ⟨-, -, hend⟩ | ⟨-, -, hend⟩
    · exact h.congr (by simp only [Engine.act, hend])
    · exact h.congr (by simp only [Engine.act, hend])
    · exact h.congr (by simp only [Engine.act, hend])
  | request handle r => exact h.perform hspares
  | close conn => exact h.congr (close_databases conn g)

/-- An insertion through an open handle is refused for its identifier exactly if a document in its
place has an identifier that is alike. -/
theorem insert_duplicate_iff {g : Engine} {h : Handle} {database : String}
    (hopen : g.databaseOf h = .ok database) (d : Document) (id : Value) :
    (g.insert h d).1 = .error (.duplicateId id) ↔
      id = g.store.idFor d ∧ ∃ e ∈ g.store.documents database h.collection,
        ∃ v, Keyed.get? e "_id" = some v ∧ v.alike id = true := by
  have hperform : (g.perform h (.insert d)).1 = (g.insert h d).1.map .inserted := rfl
  rw [← map_eq_error (f := Report.inserted), ← hperform]
  constructor
  · intro herror
    have hend := g.performed h (.insert d)
    rw [herror] at hend
    cases hend with
    | refused hopen' hout hsame hfiles =>
      cases hopen.symm.trans hopen'
      cases Request.outcome_eq_error_iff.mp hout with
      | duplicate hused => exact ⟨rfl, idInUse_eq_true.mp hused⟩
  · rintro ⟨rfl, hused⟩
    refine (g.performed h (.insert d)).eq_error_of_refused hopen ?_
    exact Request.outcome_eq_error_iff.mpr (.duplicate (idInUse_eq_true.mpr hused))

/-- Identifiers stay unique over every run of actions, failing ones included, of which none goes
inside an identifier of the collection; and then an insertion is refused for its identifier exactly
if that is in use, be it as a number of another kind. -/
theorem uniqueIds_after {g : Engine} {database collection : String} {actions : List Action}
    (hthere : Keyed.has g.store.databases database = true)
    (hunique : UniqueIds (g.store.documents database collection))
    (hspares : ∀ a ∈ actions, a.SparesIds collection) :
    UniqueIds ((g.after actions).store.documents database collection) ∧
    ∀ conn, (g.after actions).databaseOf ⟨conn, collection⟩ = .ok database → ∀ d id,
      (((g.after actions).insert ⟨conn, collection⟩ d).1 = .error (.duplicateId id) ↔
        id = (g.after actions).store.idFor d ∧
          ∃ e ∈ (g.after actions).store.documents database collection,
            ∃ v, Keyed.get? e "_id" = some v ∧ v.alike id = true) := by
  have hstep : ∀ a ∈ actions, ∀ g, UniqueIn database collection g →
      UniqueIn database collection (g.act a).2 := fun a ha g h => h.act (hspares a ha)
  have hafter : UniqueIn database collection (g.after actions) := after_keeps hstep ⟨hthere, hunique⟩
  exact ⟨hafter.unique, fun conn hopen d id => insert_duplicate_iff hopen d id⟩

/-- Adds items under a number that is in use and under one that is free, changes all sizes and takes
the first item out. -/
def renew : List Action :=
  [.request ⟨0, "items"⟩ (.insert [("_id", .int64 2)]),
    .request ⟨0, "items"⟩ (.insert [("_id", .int64 3)]),
    .request ⟨0, "items"⟩ (.update [] [("$set", .document [("size", .null)])] true),
    .request ⟨0, "items"⟩ (.remove [("_id", .int32 1)])]

theorem uniqueIds_after_renew :
    UniqueIds ((sized.after renew).store.documents "shop" "items") ∧
    ((sized.after renew).insert ⟨0, "items"⟩ [("_id", .int32 3)]).1 =
      .error (.duplicateId (.int32 3)) := by
  have hdocs : sized.store.documents "shop" "items" =
      [[("_id", .int32 1), ("size", .document [("height", .int32 3)])],
        [("_id", .int32 2), ("size", .int32 5)]] := by rfl
  have hunique : UniqueIds (sized.store.documents "shop" "items") := by
    rw [hdocs]
    refine ⟨by decide, ?_⟩
    refine List.pairwise_pair.mpr ?_
    rintro ⟨v, w, hv, hw, halike⟩
    cases hv
    cases hw
    exact absurd halike (by decide)
  have hspares : ∀ a ∈ renew, a.SparesIds "items" := by
    simp only [renew, List.forall_mem_cons]
    refine ⟨fun _ => trivial, fun _ => trivial, ?_, fun _ => trivial, List.forall_mem_nil _⟩
    intro _
    show ∀ path ∈ ["size"], Update.idPart? path = none
    decide
  have hafter := uniqueIds_after (by rfl) hunique hspares
  have hdocs' : (sized.after renew).store.documents "shop" "items" =
      [[("_id", .int32 2), ("size", .null)], [("_id", .int64 3), ("size", .null)]] := by rfl
  refine ⟨hafter.1, (hafter.2 0 (by rfl) _ _).mpr ⟨rfl, [("_id", .int64 3), ("size", .null)], ?_, ?_⟩⟩
  · rw [hdocs']
    exact List.mem_cons_of_mem _ List.mem_cons_self
  · exact ⟨.int64 3, rfl, by decide⟩

end Engine
end DocQuery
