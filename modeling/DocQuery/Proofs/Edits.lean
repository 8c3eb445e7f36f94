import DocQuery.Proofs.PathUpdates

/-
  An update as a list of edits, each of which sets or removes the value at one path. What is checked
  of the operators can be told from the update alone (`Admissible`), and an update that passes goes
  through exactly if its edits do, one after the other (`apply_eq_ok_iff`). So whatever an update
  does when it goes through is shown by induction on its edits, and an edit is known by three
  things: whether it can be made (`Edit.Fits`), whether it counts as a change (`Edit.changes`), and
  what is at its path afterwards (`Edit.Settled`).
-/

namespace DocQuery

namespace Update

open FieldPath

/-- One place that an update touches, with the value that is set there, if one is. -/
structure Edit where
  path : String
  value : Option Value

namespace Edit

def names (e : Edit) : List String := segments e.path

def apply (e : Edit) (d : Document) : Option (Document × Bool) :=
  match e.value with
  | some v => (setPath d e.path v).toOption
  | none => some (unsetPath d e.path)

/-- One edit after others, with whether any of them has been a change. -/
def step (s : Document × Bool) (e : Edit) : Option (Document × Bool) :=
  (e.apply s.1).map fun r => (r.1, s.2 || r.2)

/-- Whether an edit can be made: a value is set only where its names lead through documents. -/
def Fits (e : Edit) (d : Document) : Prop := e.value.isSome → Passable d e.names

/-- Whether an edit counts as a change. -/
def changes (e : Edit) (d : Document) : Bool :=
  match e.value with
  | some v => Update.changes ((Value.document d).descend e.names) v
  | none => ((Value.document d).descend e.names).isSome

/-- Whether a document is as an edit leaves it. -/
def Settled (e : Edit) (d : Document) : Prop := (Value.document d).descend e.names = e.value

end Edit

/-- The edits of one operator. -/
def operatorEdits (op : String) (operand : Value) : List Edit :=
  if op = "$set" then (operand.fields?.getD []).map fun e => ⟨e.1, some e.2⟩
  else if op = "$unset" then (operand.fields?.getD []).map fun e => ⟨e.1, none⟩
  else []

/-- The edits of an update, in the order in which they are made. -/
def edits (update : Document) : List Edit := update.flatMap fun e => operatorEdits e.1 e.2

/-- What an operator has to be for its fields to be touched at all. -/
def AdmissibleOperator (op : String) (operand : Value) : Prop :=
  (op = "$set" ∨ op = "$unset") ∧ ∃ fields, operand = .document fields ∧
    fields.length ≤ maxFields ∧ Keyed.has fields "_id" = false

/-- What can be asked of an update without a document: that there are operators, and that each may
touch its fields. -/
def Admissible (update : Document) : Prop :=
  update ≠ [] ∧ ∀ e ∈ update, AdmissibleOperator e.1 e.2

theorem wellFormed_of_mem_edits {update : Document} (hu : (Value.document update).WellFormed)
    {e : Edit} (he : e ∈ edits update) {v : Value} (hv : e.value = some v) : v.WellFormed := by
  obtain ⟨⟨op, operand⟩, hop, hmem⟩ := List.mem_flatMap.mp he
  have hoperand : operand.WellFormed := Value.wellFormed_of_mem_fields hu hop
  unfold operatorEdits at hmem
  split at hmem
  · obtain ⟨⟨path, w⟩, hfield, rfl⟩ := List.mem_map.mp hmem
    cases hv
    cases hfields : operand.fields? with
    | none =>
      rw [hfields] at hfield
      cases hfield
    | some fields =>
      rw [hfields] at hfield
      obtain rfl := Value.eq_document_of_fields? hfields
      exact Value.wellFormed_of_mem_fields hoperand hfield
  · split at hmem
    · obtain ⟨field, -, rfl⟩ := List.mem_map.mp hmem
      cases hv
    · cases hmem

/-! ## Updates and their edits -/

theorem Edit.apply_set {path : String} {v : Value} {d d' : Document} {c : Bool} :
    (⟨path, some v⟩ : Edit).apply d = some (d', c) ↔ setAt v (segments path) d = .ok (d', c) := by
  show (setPath d path v).toOption = _ ↔ _
  unfold setPath
  rcases setAt v (segments path) d with e | r
  · exact ⟨nofun, nofun⟩
  · simp [Except.toOption]

theorem Edit.apply_unset {path : String} {d d' : Document} {c : Bool}
    (h : (⟨path, none⟩ : Edit).apply d = some (d', c)) :
    unsetAt (segments path) d = (d', c) := Option.some.inj h

theorem setAll_eq_ok_iff {fields : List (String × Value)} {d d' : Document} {changed c : Bool} :
    setAll d changed fields = ⟨d', .ok c⟩ ↔
      (fields.map fun e => (⟨e.1, some e.2⟩ : Edit)).foldlM Edit.step (d, changed) =
        some (d', c) := by
  induction fields generalizing d changed with
  | nil => simp [setAll]
  | cons e rest ih =>
    obtain ⟨path, v⟩ := e
    rw [setAll, List.map_cons, List.foldlM_cons]
    show _ ↔ ((setPath d path v).toOption.map _).bind _ = _
    rcases setPath d path v with e | ⟨d₁, c₁⟩
    · simp [Except.toOption]
    · exact ih

theorem unsetAll_eq_ok_iff {fields : List (String × Value)} {d d' : Document} {changed c : Bool} :
    unsetAll d changed fields = ⟨d', .ok c⟩ ↔
      (fields.map fun e => (⟨e.1, none⟩ : Edit)).foldlM Edit.step (d, changed) =
        some (d', c) := by
  induction fields generalizing d changed with
  | nil => simp [unsetAll]
  | cons e rest ih =>
    rw [unsetAll, List.map_cons, List.foldlM_cons]
    exact ih

theorem applyOperator_eq_ok_iff {op : String} {operand : Value} {d d' : Document}
    {changed c : Bool} :
    applyOperator d changed op operand = ⟨d', .ok c⟩ ↔ AdmissibleOperator op operand ∧
      (operatorEdits op operand).foldlM Edit.step (d, changed) = some (d', c) := by
  unfold applyOperator AdmissibleOperator operatorEdits
  rcases hchecked : checkedFields op operand with e | fields
  · constructor
    · intro hfails
      cases hfails
    · rintro ⟨⟨-, fields, hfields⟩, -⟩
      rw [checkedFields_eq_ok_iff.mpr hfields] at hchecked
      cases hchecked
  · obtain ⟨rfl, hfew, hid⟩ := checkedFields_eq_ok_iff.mp hchecked
    dsimp only
    split
    · next hop => simp [hop, hfew, hid, setAll_eq_ok_iff, Value.fields?]
    · next hset =>
      split
      · next hop => simp [hop, hfew, hid, unsetAll_eq_ok_iff, Value.fields?]
      · next hunset => simp [hset, hunset]

theorem applyOperators_eq_ok_iff {update d d' : Document} {changed c : Bool} :
    applyOperators d changed update = ⟨d', .ok c⟩ ↔
      (∀ e ∈ update, AdmissibleOperator e.1 e.2) ∧
        (edits update).foldlM Edit.step (d, changed) = some (d', c) := by
  induction update generalizing d changed with
  | nil => simp [applyOperators, edits]
  | cons e rest ih =>
    obtain ⟨op, operand⟩ := e
    have hedits : edits ((op, operand) :: rest) = operatorEdits op operand ++ edits rest := rfl
    rw [applyOperators, hedits, List.foldlM_append, List.forall_mem_cons]
    rcases happly : applyOperator d changed op operand with ⟨d₁, e | c₁⟩
    · constructor
      · intro hfails
        cases hfails
      · rintro ⟨⟨hop, -⟩, hrun⟩
        obtain ⟨⟨d₁, c₁⟩, hone, -⟩ := Option.bind_eq_some_iff.mp hrun
        rw [applyOperator_eq_ok_iff.mpr ⟨hop, hone⟩] at happly
        cases happly
    · obtain ⟨hop, hone⟩ := applyOperator_eq_ok_iff.mp happly
      rw [hone]
      dsimp only
      rw [ih]
      exact ⟨fun h => ⟨⟨hop, h.1⟩, h.2⟩, fun h => ⟨h.1.2, h.2⟩⟩

/-- An update goes through exactly if it is admissible and its edits can be made one after the
other, and then it leaves what they leave. -/
theorem apply_eq_ok_iff {update d d' : Document} {c : Bool} :
    apply update d = ⟨d', .ok c⟩ ↔
      Admissible update ∧ (edits update).foldlM Edit.step (d, false) = some (d', c) := by
  unfold apply Admissible
  rcases update with _ | ⟨e, rest⟩
  · constructor
    · intro hfails
      cases hfails
    · exact fun h => absurd rfl h.1.1
  · rw [List.isEmpty_cons, if_neg Bool.false_ne_true, applyOperators_eq_ok_iff]
    simp

theorem progress_of_result {update d : Document} {c : Bool}
    (h : (apply update d).result = .ok c) : apply update d = ⟨(apply update d).document, .ok c⟩ := by
  rw [← h]

/-! ## One edit -/

namespace Edit

variable {e : Edit} {d d' : Document} {c : Bool}

theorem exists_apply_iff (e : Edit) (d : Document) : (∃ r, e.apply d = some r) ↔ e.Fits d := by
  obtain ⟨path, _ | v⟩ := e
  · exact ⟨fun _ => nofun, fun _ => ⟨_, rfl⟩⟩
  · show _ ↔ (true = true → Passable d (segments path))
    rw [← exists_setAt_iff v]
    constructor
    · rintro ⟨⟨d', c⟩, h⟩ -
      exact ⟨_, apply_set.mp h⟩
    · intro h
      obtain ⟨⟨d', c⟩, hset⟩ := h rfl
      exact ⟨_, apply_set.mpr hset⟩

theorem changes_of_apply (h : e.apply d = some (d', c)) : c = e.changes d := by
  obtain ⟨path, _ | v⟩ := e
  · have hremoved := removed_of_unsetAt (segments_ne_nil path) d
    rwa [apply_unset h] at hremoved
  · exact changed_of_setAt (segments_ne_nil path) (apply_set.mp h)

theorem settled_of_apply (h : e.apply d = some (d', c)) : e.Settled d' := by
  obtain ⟨path, _ | v⟩ := e
  · have hself := descend_unsetAt_self (segments_ne_nil path) d
    rwa [apply_unset h] at hself
  · exact descend_setAt_self (segments_ne_nil path) (apply_set.mp h)

/-- An edit leaves alone what lies apart from its path. -/
theorem descend_apart {other : List String} (hapart : Apart e.names other)
    (h : e.apply d = some (d', c)) :
    (Value.document d').descend other = (Value.document d).descend other := by
  obtain ⟨path, _ | v⟩ := e
  · have hother := descend_unsetAt_apart (show Apart (segments path) other from hapart) d
    rwa [apply_unset h] at hother
  · exact descend_setAt_apart hapart (apply_set.mp h)

/-- In front of its path an edit finds documents or nothing, or it leaves what it finds. -/
theorem outlineAt_front {front : List String} (hfront : front <+: e.names) (hne : front ≠ e.names)
    (h : e.apply d = some (d', c)) :
    outlineAt d' front = if e.value.isSome then some (.document []) else outlineAt d front := by
  obtain ⟨path, _ | v⟩ := e
  · have hfound := outlineAt_unsetAt_front (show front <+: segments path from hfront) hne d
    rwa [apply_unset h] at hfound
  · obtain ⟨fields, hfields⟩ := descend_setAt_front hfront hne (apply_set.mp h)
    unfold outlineAt
    rw [hfields]
    rfl

theorem wellFormed_apply (hd : (Value.document d).WellFormed)
    (he : ∀ v, e.value = some v → v.WellFormed) (h : e.apply d = some (d', c)) :
    (Value.document d').WellFormed := by
  obtain ⟨path, _ | v⟩ := e
  · have hunset := wellFormed_unsetAt hd (segments path)
    rwa [apply_unset h] at hunset
  · exact wellFormed_setAt hd (he v rfl) (apply_set.mp h)

theorem run_cons {es : List Edit} {s s' : Document × Bool} :
    (e :: es).foldlM step s = some s' ↔
      ∃ d₁ c₁, e.apply s.1 = some (d₁, c₁) ∧ es.foldlM step (d₁, s.2 || c₁) = some s' := by
  rw [List.foldlM_cons]
  show ((e.apply s.1).map _).bind _ = _ ↔ _
  rcases e.apply s.1 with _ | ⟨d₁, c₁⟩
  · exact ⟨nofun, nofun⟩
  · constructor
    · exact fun h => ⟨d₁, c₁, rfl, h⟩
    · rintro ⟨_, _, ⟨rfl⟩, h⟩
      exact h

/-- A change among the edits is not forgotten. -/
theorem changed_of_run {es : List Edit} (h : es.foldlM step (d, true) = some (d', c)) :
    c = true := by
  induction es generalizing d with
  | nil =>
    cases h
    rfl
  | cons e es ih =>
    obtain ⟨d₁, c₁, -, hmore⟩ := run_cons.mp h
    exact ih hmore

theorem wellFormed_run {es : List Edit} (hes : ∀ e ∈ es, ∀ v, e.value = some v → v.WellFormed)
    {b : Bool} (hd : (Value.document d).WellFormed)
    (h : es.foldlM step (d, b) = some (d', c)) : (Value.document d').WellFormed := by
  induction es generalizing d b with
  | nil =>
    cases h
    exact hd
  | cons e es ih =>
    obtain ⟨d₁, c₁, hone, hmore⟩ := run_cons.mp h
    exact ih (fun f hf => hes f (List.mem_cons_of_mem _ hf))
      (wellFormed_apply hd (hes e List.mem_cons_self) hone) hmore

end Edit

/-! ## Edits at places apart -/

/-- Whether no edit is at a place that another one touches. -/
def Independent (es : List Edit) : Prop := es.Pairwise fun e f => Apart e.names f.names

instance (es : List Edit) : Decidable (Independent es) :=
  inferInstanceAs (Decidable (es.Pairwise _))

/-- What edits at places apart make of a document, in whichever order they are made. -/
structure Edited (es : List Edit) (d d' : Document) : Prop where
  settled : ∀ e ∈ es, e.Settled d'
  inFront : ∀ e ∈ es, e.value.isSome → ∀ names, names <+: e.names → names ≠ e.names →
    outlineAt d' names = some (.document [])
  apart : ∀ names, (∀ e ∈ es, Apart e.names names) →
    (Value.document d').descend names = (Value.document d).descend names
  elsewhere : ∀ names, (∀ e ∈ es, ¬e.names <+: names) →
    (∀ e ∈ es, e.value.isSome → ¬names <+: e.names) → outlineAt d' names = outlineAt d names

theorem edited_nil (d : Document) : Edited [] d d := ⟨nofun, nofun, fun _ _ => rfl, fun _ _ _ => rfl⟩

theorem edited_single {e : Edit} {d d' : Document} {c : Bool} (h : e.apply d = some (d', c)) :
    Edited [e] d d' where
  settled := by
    simpa using Edit.settled_of_apply h
  inFront := by
    simp only [List.mem_singleton, forall_eq]
    intro hset names hfront hne
    rw [Edit.outlineAt_front hfront hne h, if_pos hset]
  apart := by
    simp only [List.mem_singleton, forall_eq]
    exact fun names hapart => Edit.descend_apart hapart h
  elsewhere := by
    simp only [List.mem_singleton, forall_eq]
    intro names hbehind hset
    by_cases hfront : names <+: e.names
    · have hne : names ≠ e.names := by
        rintro rfl
        exact hbehind (List.prefix_refl _)
      rw [Edit.outlineAt_front hfront hne h, if_neg fun hsome => hset hsome hfront]
    · exact congrArg (·.map Value.outline) (Edit.descend_apart ⟨hbehind, hfront⟩ h)

/-- Edits after others at places apart from theirs. -/
theorem Edited.append {es fs : List Edit} {d d' d'' : Document} (h : Edited es d d')
    (h' : Edited fs d' d'') (hapart : ∀ e ∈ es, ∀ f ∈ fs, Apart e.names f.names) :
    Edited (es ++ fs) d d'' where
  settled e he := by
    rcases List.mem_append.mp he with he | he
    · unfold Edit.Settled
      rw [h'.apart e.names fun f hf => (hapart e he f hf).symm]
      exact h.settled e he
    · exact h'.settled e he
  inFront e he hset names hfront hne := by
    rcases List.mem_append.mp he with he | he
    · by_cases hlater : ∃ f ∈ fs, f.value.isSome ∧ names <+: f.names
      · obtain ⟨f, hf, hfset, hffront⟩ := hlater
        refine h'.inFront f hf hfset names hffront ?_
        rintro rfl
        exact (hapart e he f hf).2 hfront
      · rw [h'.elsewhere names (fun f hf hbehind => (hapart e he f hf).2 (hbehind.trans hfront))
          fun f hf hfset hffront => hlater ⟨f, hf, hfset, hffront⟩]
        exact h.inFront e he hset names hfront hne
    · exact h'.inFront e he hset names hfront hne
  apart names hnames := by
    rw [h'.apart names fun f hf => hnames f (List.mem_append_right _ hf)]
    exact h.apart names fun e he => hnames e (List.mem_append_left _ he)
  elsewhere names hbehind hset := by
    rw [h'.elsewhere names (fun f hf => hbehind f (List.mem_append_right _ hf))
      fun f hf => hset f (List.mem_append_right _ hf)]
    exact h.elsewhere names (fun e he => hbehind e (List.mem_append_left _ he))
      fun e he => hset e (List.mem_append_left _ he)

section Later

variable {e f : Edit} {d d' : Document} {c : Bool} (hapart : Apart e.names f.names)
  (h : e.apply d = some (d', c))
include hapart h

theorem changes_later : f.changes d' = f.changes d := by
  unfold Edit.changes
  rw [Edit.descend_apart hapart h]

/-- An edit neither opens nor closes the way of an edit apart from it: where the two ways are one,
the first edit has found documents. -/
theorem fits_later : f.Fits d' ↔ f.Fits d := by
  have hfits := (Edit.exists_apply_iff e d).mp ⟨_, h⟩
  have hedited := edited_single h
  unfold Edit.Fits
  rw [passable_iff, passable_iff]
  refine forall_congr' fun _ => forall_congr' fun front => forall_congr' fun hfront =>
    forall_congr' fun _ => ?_
  by_cases hshared : e.value.isSome ∧ front <+: e.names
  · have hne : front ≠ e.names := by
      rintro rfl
      exact hapart.1 hfront
    have hopen := passable_iff.mp (hfits hshared.1) front hshared.2 hne
    rw [hedited.inFront e (List.mem_singleton_self e) hshared.1 front hshared.2 hne]
    exact ⟨fun _ => hopen, fun _ w hw => by cases hw; rfl⟩
  · rw [hedited.elsewhere front]
    · simpa using fun hbehind => hapart.1 (hbehind.trans hfront)
    · simpa using fun hset hbefore => hshared ⟨hset, hbefore⟩

end Later

theorem Independent.exists_run_iff {es : List Edit} (hes : Independent es) (d : Document)
    (b : Bool) : (∃ r, es.foldlM Edit.step (d, b) = some r) ↔ ∀ e ∈ es, e.Fits d := by
  induction es generalizing d b with
  | nil => exact ⟨fun _ => nofun, fun _ => ⟨_, rfl⟩⟩
  | cons e es ih =>
    obtain ⟨hapart, hrest⟩ := List.pairwise_cons.mp hes
    have hlater : ∀ d₁ c₁, e.apply d = some (d₁, c₁) →
        ((∀ f ∈ es, f.Fits d₁) ↔ ∀ f ∈ es, f.Fits d) := fun d₁ c₁ hone =>
      forall_congr' fun f => forall_congr' fun hf => fits_later (hapart f hf) hone
    rw [List.forall_mem_cons, ← Edit.exists_apply_iff]
    constructor
    · rintro ⟨r, hr⟩
      obtain ⟨d₁, c₁, hone, hmore⟩ := Edit.run_cons.mp hr
      exact ⟨⟨_, hone⟩, (hlater d₁ c₁ hone).mp ((ih hrest d₁ _).mp ⟨r, hmore⟩)⟩
    · rintro ⟨⟨⟨d₁, c₁⟩, hone⟩, hfits⟩
      obtain ⟨r, hr⟩ := (ih hrest d₁ (b || c₁)).mpr ((hlater d₁ c₁ hone).mpr hfits)
      exact ⟨r, Edit.run_cons.mpr ⟨d₁, c₁, hone, hr⟩⟩

/-- Edits at places apart are all there afterwards, and each counts as a change or not by what is
there before. -/
theorem Independent.edited {es : List Edit} (hes : Independent es) {d d' : Document} {b c : Bool}
    (h : es.foldlM Edit.step (d, b) = some (d', c)) :
    Edited es d d' ∧ c = (b || es.any fun e => e.changes d) := by
  induction es generalizing d b with
  | nil =>
    cases h
    exact ⟨edited_nil _, by simp⟩
  | cons e es ih =>
    obtain ⟨hapart, hrest⟩ := List.pairwise_cons.mp hes
    obtain ⟨d₁, c₁, hone, hmore⟩ := Edit.run_cons.mp h
    obtain ⟨hedited, rfl⟩ := ih hrest hmore
    refine ⟨(edited_single hone).append hedited (by simpa using hapart), ?_⟩
    have hchanges : es.any (fun f => f.changes d₁) = es.any fun f => f.changes d := by
      rw [Bool.eq_iff_iff, List.any_eq_true, List.any_eq_true]
      refine exists_congr fun f => and_congr_right fun hf => ?_
      rw [changes_later (hapart f hf) hone]
    rw [List.any_cons, hchanges, Edit.changes_of_apply hone, Bool.or_assoc]

end Update

end DocQuery
