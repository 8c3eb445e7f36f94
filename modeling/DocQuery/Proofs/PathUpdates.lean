import DocQuery.Proofs.Identifiers
import DocQuery.Proofs.ValueEquality

/-
  Setting and removing a value at the end of some names. Each is settled by what other names lead
  to afterwards, and for that two lists of names stand to one another in one of three ways: one of
  them continues the other, or they part at some name (`Apart`). Behind the names stands the new
  value or nothing, in front of them there are documents, and whatever is apart stays as it is.

  All of it is by induction on the names. A step goes into the document under the first name, or
  into a new one, so the lemmas speak of what a value leads to (`descend`), the value itself being
  what no names lead to. In front of a place that is touched a document stays a document while its
  fields change, which is what `outlineAt` leaves of it.
-/

namespace DocQuery

namespace Value

/-- What names lead to inside of a value, through documents by exact keys. -/
def descend : Value → List String → Option Value
  | v, [] => some v
  | document fields, name :: rest => (Keyed.get? fields name).bind fun v => v.descend rest
  | _, _ :: _ => none

theorem descend_nil (v : Value) : v.descend [] = some v := by cases v <;> rfl

theorem descend_cons (fields : Document) (name : String) (rest : List String) :
    (document fields).descend (name :: rest) =
      (Keyed.get? fields name).bind fun v => v.descend rest := rfl

theorem descend_of_fields?_eq_none {v : Value} (h : v.fields? = none) (name : String)
    (rest : List String) : v.descend (name :: rest) = none := by
  cases v <;> first | rfl | cases h

/-- What a value is, the fields of a document aside. -/
def outline : Value → Value
  | document _ => document []
  | v => v

theorem fields?_outline (v : Value) : v.outline.fields?.isSome = v.fields?.isSome := by
  cases v <;> rfl

theorem outline_eq_self {v : Value} (h : v.fields? = none) : v.outline = v := by
  cases v <;> first | rfl | cases h

/-- What is no document is known by its outline. -/
theorem eq_of_outline {v w : Value} (hv : v.fields? = none) (h : v.outline = w.outline) :
    v = w := by
  have hw : w.fields? = none := by
    have hsome := fields?_outline w
    rw [← h, fields?_outline, hv] at hsome
    exact Option.isSome_eq_false_iff.mp hsome.symm |> Option.isNone_iff_eq_none.mp
  rwa [outline_eq_self hv, outline_eq_self hw] at h

theorem wellFormedFields_iff {fields : Document} :
    WellFormedFields fields ↔ ∀ e ∈ fields, e.2.WellFormed := by
  induction fields with
  | nil => simp [WellFormedFields]
  | cons e rest ih => rw [WellFormedFields, ih, List.forall_mem_cons]

theorem wellFormed_document_iff {fields : Document} : (document fields).WellFormed ↔
    (Keyed.keys fields).Nodup ∧ ∀ e ∈ fields, e.2.WellFormed := by
  rw [WellFormed, wellFormedFields_iff]

theorem wellFormed_of_mem_fields {fields : Document} (h : (document fields).WellFormed)
    {e : String × Value} (he : e ∈ fields) : e.2.WellFormed :=
  (wellFormed_document_iff.mp h).2 e he

theorem wellFormed_put {fields : Document} (h : (document fields).WellFormed) (name : String)
    {v : Value} (hv : v.WellFormed) : (document (Keyed.put fields name v)).WellFormed := by
  rw [wellFormed_document_iff] at h ⊢
  refine ⟨Keyed.nodup_keys_put h.1 name v, fun e he => ?_⟩
  rcases Keyed.mem_of_mem_put he with rfl | he
  · exact hv
  · exact h.2 e he

theorem wellFormed_erase {fields : Document} (h : (document fields).WellFormed) (name : String) :
    (document (Keyed.erase fields name)).WellFormed := by
  rw [wellFormed_document_iff] at h ⊢
  exact ⟨Keyed.nodup_keys_erase h.1 name, fun e he => h.2 e (Keyed.mem_of_mem_erase he)⟩

theorem wellFormed_get? {fields : Document} (h : (document fields).WellFormed) {name : String}
    {v : Value} (hv : Keyed.get? fields name = some v) : v.WellFormed := by
  rw [WellFormed] at h
  exact wellFormed_of_get? h.2 hv

theorem eq_document_of_fields? {v : Value} {fields : Document} (h : v.fields? = some fields) :
    v = document fields := by
  cases v <;> cases h
  rfl

theorem descend_append (v : Value) (front rest : List String) :
    v.descend (front ++ rest) = (v.descend front).bind fun w => w.descend rest := by
  induction front generalizing v with
  | nil => rw [List.nil_append, descend_nil, Option.bind_some]
  | cons name front ih =>
    cases hv : v.fields? with
    | none =>
      rw [List.cons_append, descend_of_fields?_eq_none hv, descend_of_fields?_eq_none hv]
      rfl
    | some fields =>
      obtain rfl := eq_document_of_fields? hv
      rw [List.cons_append, descend_cons, descend_cons]
      cases Keyed.get? fields name with
      | none => rfl
      | some w => exact ih w

/-- What leads somewhere is a document, with something under the first name. -/
theorem descend_cons_eq_some {v w : Value} {name : String} {rest : List String}
    (h : v.descend (name :: rest) = some w) : ∃ fields u, v = document fields ∧
      Keyed.get? fields name = some u ∧ u.descend rest = some w := by
  cases hv : v.fields? with
  | none =>
    rw [descend_of_fields?_eq_none hv] at h
    cases h
  | some fields =>
    obtain rfl := eq_document_of_fields? hv
    obtain ⟨u, hu, hrest⟩ := Option.bind_eq_some_iff.mp h
    exact ⟨fields, u, rfl, hu, hrest⟩

theorem wellFormed_descend {v w : Value} {names : List String} (hv : v.WellFormed)
    (h : v.descend names = some w) : w.WellFormed := by
  induction names generalizing v with
  | nil =>
    rw [descend_nil, Option.some.injEq] at h
    exact h ▸ hv
  | cons name rest ih =>
    obtain ⟨fields, u, rfl, hu, hrest⟩ := descend_cons_eq_some h
    exact ih (wellFormed_get? hv hu) hrest

/-- In front of what names lead to there are documents. -/
theorem exists_document_front {v w : Value} {front : List String} {name : String}
    {rest : List String} (h : v.descend (front ++ name :: rest) = some w) :
    ∃ fields, v.descend front = some (document fields) := by
  rw [descend_append] at h
  obtain ⟨u, hu, hrest⟩ := Option.bind_eq_some_iff.mp h
  obtain ⟨fields, -, rfl, -, -⟩ := descend_cons_eq_some hrest
  exact ⟨fields, hu⟩

end Value

namespace FieldPath

theorem lookup_eq_descend {names : List String} (h : names ≠ []) (d : Document) :
    lookup d names = (Value.document d).descend names := by
  induction names generalizing d with
  | nil => exact absurd rfl h
  | cons name rest ih =>
    rw [Value.descend_cons]
    cases rest with
    | nil =>
      rw [lookup]
      cases Keyed.get? d name with
      | none => rfl
      | some v => exact (Value.descend_nil v).symm
    | cons next rest =>
      rw [lookup]
      · cases Keyed.get? d name with
        | none => rfl
        | some v =>
          cases hv : v.fields? with
          | none =>
            rw [Option.bind_some, Value.descend_of_fields?_eq_none hv]
            cases v <;> first | rfl | cases hv
          | some fields =>
            obtain rfl := Value.eq_document_of_fields? hv
            exact ih (List.cons_ne_nil _ _) fields
      · nofun

/-- What names lead to in a document, the fields of documents aside. -/
def outlineAt (d : Document) (names : List String) : Option Value :=
  ((Value.document d).descend names).map Value.outline

/-- Whether two lists of names part at some name, so that neither continues the other. -/
def Apart (names other : List String) : Prop := ¬names <+: other ∧ ¬other <+: names

instance (names other : List String) : Decidable (Apart names other) :=
  inferInstanceAs (Decidable (_ ∧ _))

theorem Apart.symm {names other : List String} (h : Apart names other) : Apart other names :=
  ⟨h.2, h.1⟩

theorem apart_cons {name : String} {names other : List String} :
    Apart (name :: names) (name :: other) ↔ Apart names other := by
  simp [Apart, List.cons_prefix_cons]

theorem Apart.ne_nil {names other : List String} (h : Apart names other) : names ≠ [] := by
  rintro rfl
  exact h.1 List.nil_prefix

/-- Whether names lead through documents only, as far as they lead to anything in front of their
end. -/
def Passable (d : Document) (names : List String) : Prop :=
  ∀ front, front <+: names → front ≠ names → ∀ w, (Value.document d).descend front = some w →
    w.fields?.isSome

theorem passable_iff {d : Document} {names : List String} :
    Passable d names ↔ ∀ front, front <+: names → front ≠ names → ∀ w,
      outlineAt d front = some w → w.fields?.isSome := by
  refine forall_congr' fun front => forall_congr' fun hfront => forall_congr' fun hne => ?_
  unfold outlineAt
  cases (Value.document d).descend front with
  | none => exact ⟨nofun, nofun⟩
  | some v => simp [Value.fields?_outline]

theorem passable_single (d : Document) (name : String) : Passable d [name] := by
  intro front hfront hne w hw
  rcases List.prefix_cons_iff.mp hfront with rfl | ⟨rest, rfl, hrest⟩
  · cases hw
    rfl
  · exact absurd (by rw [List.prefix_nil.mp hrest]) hne

theorem passable_cons_of_none {d : Document} {name : String} (h : Keyed.get? d name = none)
    (rest : List String) : Passable d (name :: rest) := by
  intro front hfront hne w hw
  rcases List.prefix_cons_iff.mp hfront with rfl | ⟨front, rfl, -⟩
  · cases hw
    rfl
  · rw [Value.descend_cons, h] at hw
    cases hw

theorem passable_cons_of_document {d fields : Document} {name : String}
    (h : Keyed.get? d name = some (.document fields)) (rest : List String) :
    Passable d (name :: rest) ↔ Passable fields rest := by
  constructor
  · intro hpass front hfront hne w hw
    refine hpass (name :: front) (List.cons_prefix_cons.mpr ⟨rfl, hfront⟩) (by simpa using hne) w ?_
    rw [Value.descend_cons, h]
    exact hw
  · intro hpass front hfront hne w hw
    rcases List.prefix_cons_iff.mp hfront with rfl | ⟨front, rfl, hrest⟩
    · cases hw
      rfl
    · rw [Value.descend_cons, h] at hw
      exact hpass front hrest (by simpa using hne) w hw

theorem not_passable_cons_of_value {d : Document} {name next : String} {v : Value}
    (h : Keyed.get? d name = some v) (hv : v.fields? = none) (rest : List String) :
    ¬Passable d (name :: next :: rest) := by
  intro hpass
  have hsome := hpass [name] (by simp) (by simp) v
    (by rw [Value.descend_cons, h, Option.bind_some, Value.descend_nil])
  rw [hv] at hsome
  cases hsome

end FieldPath

namespace Update

open FieldPath

variable {value : Value} {names : List String} {d d' : Document} {c : Bool}

/-! ## Setting -/

/-- A value can be set where names lead through documents, and nowhere else. -/
theorem exists_setAt_iff (value : Value) (names : List String) (d : Document) :
    (∃ r, setAt value names d = .ok r) ↔ Passable d names := by
  induction names generalizing d with
  | nil =>
    refine ⟨fun _ front hfront hne => absurd (List.prefix_nil.mp hfront) hne, fun _ => ⟨_, rfl⟩⟩
  | cons name rest ih =>
    cases rest with
    | nil => exact ⟨fun _ => passable_single d name, fun _ => ⟨_, rfl⟩⟩
    | cons next rest =>
      simp only [setAt]
      split
      · next hnone =>
        refine ⟨fun _ => passable_cons_of_none hnone _, fun _ => ?_⟩
        obtain ⟨⟨sub, changed⟩, hsub⟩ := (ih []).mpr (passable_cons_of_none rfl rest)
        rw [hsub]
        exact ⟨_, rfl⟩
      · next fields hfields =>
        rw [passable_cons_of_document hfields, ← ih fields]
        constructor
        · rintro ⟨r, hr⟩
          rcases hsub : setAt value (next :: rest) fields with e | s
          · rw [hsub] at hr
            cases hr
          · exact ⟨s, rfl⟩
        · rintro ⟨⟨sub, changed⟩, hsub⟩
          rw [hsub]
          exact ⟨_, rfl⟩
      · next v hother hv =>
        have hfields : v.fields? = none := by
          cases v <;> first | rfl | exact absurd rfl (hother _)
        constructor
        · rintro ⟨r, hr⟩
          cases hr
        · exact fun hpass => absurd hpass (not_passable_cons_of_value hv hfields rest)

/-- Where a document is gone into, or a new one is made, all that lies behind its name is what lies
in it. -/
theorem descend_inside {name next : String} {fields : Document}
    (h : Keyed.get? d name = none ∧ fields = [] ∨ Keyed.get? d name = some (.document fields))
    (rest : List String) : (Value.document d).descend (name :: next :: rest) =
      (Value.document fields).descend (next :: rest) := by
  rw [Value.descend_cons]
  rcases h with ⟨hnone, rfl⟩ | hfields
  · rw [hnone]
    rfl
  · rw [hfields]
    rfl

/-- Setting inside of what is under a name, as `setAt_eq_ok` takes it apart. -/
theorem setAt_inside {name next : String} {rest : List String} {fields sub : Document}
    (hfound : Keyed.get? d name = none ∧ fields = [] ∨
      Keyed.get? d name = some (.document fields))
    (hsub : setAt value (next :: rest) fields = .ok (sub, c)) :
    setAt value (name :: next :: rest) d = .ok (Keyed.put d name (.document sub), c) := by
  rcases hfound with ⟨hnone, rfl⟩ | hfields
  · simp only [setAt, hnone, hsub]
    rfl
  · simp only [setAt, hfields, hsub]
    rfl

theorem descend_put_self (d : Document) (name : String) (v : Value) (rest : List String) :
    (Value.document (Keyed.put d name v)).descend (name :: rest) = v.descend rest := by
  rw [Value.descend_cons, Keyed.get?_put_self]
  rfl

theorem changed_of_setAt (hnames : names ≠ []) (hset : setAt value names d = .ok (d', c)) :
    c = changes ((Value.document d).descend names) value := by
  induction names generalizing d d' with
  | nil => exact absurd rfl hnames
  | cons name rest ih =>
    cases rest with
    | nil =>
      cases hset
      rw [Value.descend_cons]
      cases Keyed.get? d name with
      | none => rfl
      | some v => rw [Option.bind_some, Value.descend_nil]
    | cons next rest =>
      obtain ⟨fields, sub, hfound, hsub, rfl⟩ := setAt_eq_ok hset
      rw [ih (List.cons_ne_nil _ _) hsub, descend_inside hfound]

/-- What has been set at the end of some names is what they lead to. -/
theorem descend_setAt_self (hnames : names ≠ []) (hset : setAt value names d = .ok (d', c)) :
    (Value.document d').descend names = some value := by
  induction names generalizing d d' with
  | nil => exact absurd rfl hnames
  | cons name rest ih =>
    cases rest with
    | nil =>
      cases hset
      rw [descend_put_self, Value.descend_nil]
    | cons next rest =>
      obtain ⟨fields, sub, -, hsub, rfl⟩ := setAt_eq_ok hset
      rw [descend_put_self]
      exact ih (List.cons_ne_nil _ _) hsub

/-- What other names lead to, apart from those of the value, stays as it is. -/
theorem descend_setAt_apart {other : List String} (hapart : Apart names other)
    (hset : setAt value names d = .ok (d', c)) :
    (Value.document d').descend other = (Value.document d).descend other := by
  induction names generalizing d d' other with
  | nil => exact absurd rfl hapart.ne_nil
  | cons name rest ih =>
    rcases other with _ | ⟨first, other⟩
    · exact absurd rfl hapart.symm.ne_nil
    · by_cases hname : first = name
      · subst hname
        rw [apart_cons] at hapart
        rcases rest with _ | ⟨next, rest⟩
        · exact absurd rfl hapart.ne_nil
        · rcases other with _ | ⟨second, other⟩
          · exact absurd rfl hapart.symm.ne_nil
          · obtain ⟨fields, sub, hfound, hsub, rfl⟩ := setAt_eq_ok hset
            rw [descend_put_self, descend_inside hfound]
            exact ih hapart hsub
      · rw [Value.descend_cons, Value.descend_cons, get?_setAt_other hset hname]

/-- In front of a value that has been set there are documents. -/
theorem descend_setAt_front {front : List String} (hfront : front <+: names) (hne : front ≠ names)
    (hset : setAt value names d = .ok (d', c)) :
    ∃ fields, (Value.document d').descend front = some (.document fields) := by
  induction names generalizing d d' front with
  | nil => exact absurd (List.prefix_nil.mp hfront) hne
  | cons name rest ih =>
    rcases List.prefix_cons_iff.mp hfront with rfl | ⟨front, rfl, hrest⟩
    · exact ⟨d', rfl⟩
    · rcases rest with _ | ⟨next, rest⟩
      · exact absurd (by rw [List.prefix_nil.mp hrest]) hne
      · obtain ⟨fields, sub, -, hsub, rfl⟩ := setAt_eq_ok hset
        rw [descend_put_self]
        exact ih hrest (by simpa using hne) hsub

theorem wellFormed_setAt (hd : (Value.document d).WellFormed) (hvalue : value.WellFormed)
    (hset : setAt value names d = .ok (d', c)) : (Value.document d').WellFormed := by
  induction names generalizing d d' with
  | nil =>
    cases hset
    exact hd
  | cons name rest ih =>
    rcases rest with _ | ⟨next, rest⟩
    · cases hset
      exact Value.wellFormed_put hd name hvalue
    · obtain ⟨fields, sub, hfound, hsub, rfl⟩ := setAt_eq_ok hset
      refine Value.wellFormed_put hd name (ih ?_ hsub)
      rcases hfound with ⟨-, rfl⟩ | hfields
      · simp [Value.WellFormed, Value.WellFormedFields, Keyed.keys]
      · exact Value.wellFormed_get? hd hfields

/-! ## Removing -/

/-- Removing something inside of what is under a name: nothing happens unless it is a document. -/
theorem unsetAt_cons (name next : String) (rest : List String) (d : Document) :
    (∃ fields, Keyed.get? d name = some (.document fields) ∧
      unsetAt (name :: next :: rest) d =
        (Keyed.put d name (.document (unsetAt (next :: rest) fields).1),
          (unsetAt (next :: rest) fields).2)) ∨
    (∀ other, (Value.document d).descend (name :: next :: other) = none) ∧
      unsetAt (name :: next :: rest) d = (d, false) := by
  simp only [unsetAt]
  split
  · next fields hfields => exact .inl ⟨fields, hfields, rfl⟩
  · next hnone =>
    refine .inr ⟨fun other => ?_, rfl⟩
    rw [Value.descend_cons]
    cases hfound : Keyed.get? d name with
    | none => rfl
    | some v =>
      refine Value.descend_of_fields?_eq_none ?_ next other
      cases v <;> first | rfl | exact absurd hfound (hnone _)

theorem removed_of_unsetAt (hnames : names ≠ []) (d : Document) :
    (unsetAt names d).2 = ((Value.document d).descend names).isSome := by
  induction names generalizing d with
  | nil => exact absurd rfl hnames
  | cons name rest ih =>
    rcases rest with _ | ⟨next, rest⟩
    · rw [Value.descend_cons]
      show Keyed.has d name = _
      unfold Keyed.has
      cases Keyed.get? d name with
      | none => rfl
      | some v => rw [Option.bind_some, Value.descend_nil]
    · rcases unsetAt_cons name next rest d with ⟨fields, hfields, hunset⟩ | ⟨hnone, hunset⟩
      · rw [hunset, descend_inside (.inr hfields)]
        exact ih (List.cons_ne_nil _ _) fields
      · rw [hunset, hnone]
        rfl

theorem descend_unsetAt_self (hnames : names ≠ []) (d : Document) :
    (Value.document (unsetAt names d).1).descend names = none := by
  induction names generalizing d with
  | nil => exact absurd rfl hnames
  | cons name rest ih =>
    rcases rest with _ | ⟨next, rest⟩
    · rw [Value.descend_cons]
      show (Keyed.get? (Keyed.erase d name) name).bind _ = none
      rw [Keyed.get?_erase_self]
      rfl
    · rcases unsetAt_cons name next rest d with ⟨fields, hfields, hunset⟩ | ⟨hnone, hunset⟩
      · rw [hunset, descend_put_self]
        exact ih (List.cons_ne_nil _ _) fields
      · rw [hunset, hnone]

/-- In front of what has been removed there is what was there, the fields of documents aside. -/
theorem outlineAt_unsetAt_front {front : List String} (hfront : front <+: names)
    (hne : front ≠ names) (d : Document) :
    outlineAt (unsetAt names d).1 front = outlineAt d front := by
  unfold outlineAt
  induction names generalizing d front with
  | nil => exact absurd (List.prefix_nil.mp hfront) hne
  | cons name rest ih =>
    rcases List.prefix_cons_iff.mp hfront with rfl | ⟨front, rfl, hrest⟩
    · rfl
    · rcases rest with _ | ⟨next, rest⟩
      · exact absurd (by rw [List.prefix_nil.mp hrest]) hne
      · rcases unsetAt_cons name next rest d with ⟨fields, hfields, hunset⟩ | ⟨-, hunset⟩
        · rw [hunset, descend_put_self, Value.descend_cons, hfields]
          exact ih hrest (by simpa using hne) fields
        · rw [hunset]

theorem descend_unsetAt_apart {other : List String} (hapart : Apart names other) (d : Document) :
    (Value.document (unsetAt names d).1).descend other = (Value.document d).descend other := by
  induction names generalizing d other with
  | nil => exact absurd rfl hapart.ne_nil
  | cons name rest ih =>
    rcases other with _ | ⟨first, other⟩
    · exact absurd rfl hapart.symm.ne_nil
    · by_cases hname : first = name
      · subst hname
        rw [apart_cons] at hapart
        rcases rest with _ | ⟨next, rest⟩
        · exact absurd rfl hapart.ne_nil
        · rcases other with _ | ⟨second, other⟩
          · exact absurd rfl hapart.symm.ne_nil
          · rcases unsetAt_cons first next rest d with ⟨fields, hfields, hunset⟩ | ⟨hnone, hunset⟩
            · rw [hunset, descend_put_self, descend_inside (.inr hfields)]
              exact ih hapart fields
            · rw [hunset]
      · rw [Value.descend_cons, Value.descend_cons, get?_unsetAt_other rest d hname]

theorem wellFormed_unsetAt (hd : (Value.document d).WellFormed) (names : List String) :
    (Value.document (unsetAt names d).1).WellFormed := by
  induction names generalizing d with
  | nil => exact hd
  | cons name rest ih =>
    rcases rest with _ | ⟨next, rest⟩
    · exact Value.wellFormed_erase hd name
    · rcases unsetAt_cons name next rest d with ⟨fields, hfields, hunset⟩ | ⟨-, hunset⟩
      · rw [hunset]
        exact Value.wellFormed_put hd name (ih (Value.wellFormed_get? hd hfields))
      · rw [hunset]
        exact hd

/-! ## Nothing to do -/

/-- Setting what is there already leaves the document as it is, the order of its fields included. -/
theorem setAt_of_descend (hnames : names ≠ [])
    (hfound : (Value.document d).descend names = some value) :
    setAt value names d = .ok (d, !value.alike value) := by
  induction names generalizing d with
  | nil => exact absurd rfl hnames
  | cons name rest ih =>
    obtain ⟨fields, v, hd, hv, hrest⟩ := Value.descend_cons_eq_some hfound
    obtain rfl := Value.document.inj hd
    rcases rest with _ | ⟨next, rest⟩
    · rw [Value.descend_nil, Option.some.injEq] at hrest
      subst hrest
      rw [setAt, Keyed.put_self hv, hv]
      rfl
    · obtain ⟨sub, -, rfl, -, -⟩ := Value.descend_cons_eq_some hrest
      rw [setAt_inside (.inr hv) (ih (List.cons_ne_nil _ _) hrest), Keyed.put_self hv]

/-- Removing what is not there leaves the document as it is. -/
theorem unsetAt_of_descend (hfound : (Value.document d).descend names = none) :
    unsetAt names d = (d, false) := by
  induction names generalizing d with
  | nil => cases hfound
  | cons name rest ih =>
    rcases rest with _ | ⟨next, rest⟩
    · have hnone : Keyed.get? d name = none := by
        rw [Value.descend_cons] at hfound
        cases hv : Keyed.get? d name with
        | none => rfl
        | some v =>
          rw [hv, Option.bind_some, Value.descend_nil] at hfound
          cases hfound
      rw [unsetAt, Keyed.erase_of_get?_eq_none hnone, Keyed.has, hnone]
      rfl
    · rcases unsetAt_cons name next rest d with ⟨fields, hfields, hunset⟩ | ⟨-, hunset⟩
      · rw [descend_inside (.inr hfields)] at hfound
        rw [hunset, ih hfound, Keyed.put_self hfields]
      · exact hunset

end Update

end DocQuery
