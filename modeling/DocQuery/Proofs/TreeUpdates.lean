import DocQuery.Proofs.PathUpdates

/-
  Setting and removing at a path as updates of a tree. What is at the path and what lies apart is
  told in `PathUpdates`; here it is what becomes of the documents in front, key by key
  (`ChangedAt`), and at which name a value cannot be set (`Blocked`).

  A place is set by walking to it, and documents that are missing on the way are made while walking.
  `setInPlace` is that walk, in which what has been made stays whatever happens further on. It never
  matters: behind a document that has just been made nothing can be in the way, so a walk that fails
  has made none (`setInPlace_eq`).
-/

namespace DocQuery

namespace FieldPath

/-- The fields of the document that names lead to, none if they lead nowhere. -/
def fieldsAt (d : Document) (names : List String) : Document :=
  (((Value.document d).descend names).bind Value.fields?).getD []

theorem fieldsAt_empty (names : List String) : fieldsAt [] names = [] := by
  cases names with
  | nil => rfl
  | cons name rest => rfl

/-- Whether a name among others, and not the last of them, leads to something that is no
document. -/
def Blocked (d : Document) (names : List String) (name : String) : Prop :=
  ∃ front rest w, names = front ++ name :: rest ∧ rest ≠ [] ∧
    (Value.document d).descend (front ++ [name]) = some w ∧ w.fields? = none

variable {d : Document} {first next name : String} {rest : List String}

theorem not_blocked_single : ¬Blocked d [first] name := by
  rintro ⟨front, behind, w, hnames, hbehind, -⟩
  rcases front with _ | ⟨other, front⟩
  · exact hbehind (List.cons.inj hnames).2.symm
  · simp at hnames

theorem blocked_cons : Blocked d (first :: next :: rest) name ↔
    (∃ w, Keyed.get? d first = some w ∧ w.fields? = none ∧ name = first) ∨
    ∃ fields, Keyed.get? d first = some (.document fields) ∧
      Blocked fields (next :: rest) name := by
  constructor
  · rintro ⟨front, behind, w, hnames, hbehind, hw, hfields⟩
    rcases front with _ | ⟨other, front⟩
    · obtain ⟨rfl, -⟩ := List.cons.inj hnames
      obtain ⟨_, u, hd, hu, hrest⟩ := Value.descend_cons_eq_some hw
      obtain rfl := Value.document.inj hd
      rw [Value.descend_nil, Option.some.injEq] at hrest
      exact .inl ⟨w, hrest ▸ hu, hfields, rfl⟩
    · obtain ⟨rfl, htail⟩ := List.cons.inj hnames
      obtain ⟨_, u, hd, hu, hrest⟩ := Value.descend_cons_eq_some hw
      obtain rfl := Value.document.inj hd
      replace hrest : u.descend (front ++ [name]) = some w := hrest
      obtain ⟨fields, rfl⟩ : ∃ fields, u = .document fields := by
        obtain ⟨second, others, hsome⟩ :=
          List.exists_cons_of_ne_nil (l := front ++ [name]) (by simp)
        rw [hsome] at hrest
        obtain ⟨fields, -, hu, -⟩ := Value.descend_cons_eq_some hrest
        exact ⟨fields, hu⟩
      exact .inr ⟨fields, hu, front, behind, w, htail, hbehind, hrest, hfields⟩
  · rintro (⟨w, hw, hfields, rfl⟩ |
      ⟨fields, hfound, front, behind, w, hnames, hbehind, hw, hfields⟩)
    · exact ⟨[], next :: rest, w, rfl, List.cons_ne_nil _ _, by
        rw [List.nil_append, Value.descend_cons, hw, Option.bind_some, Value.descend_nil], hfields⟩
    · exact ⟨first :: front, behind, w, by rw [hnames, List.cons_append], hbehind, by
        rw [List.cons_append, Value.descend_cons, hfound, Option.bind_some, hw], hfields⟩

/-- With nothing under the first name, nothing is in the way. -/
theorem not_blocked_of_none (h : Keyed.get? d first = none) :
    ¬Blocked d (first :: next :: rest) name := by
  rw [blocked_cons, h]
  rintro (⟨_, hw, -⟩ | ⟨_, hfields, -⟩)
  · cases hw
  · cases hfields

end FieldPath

namespace Update

open FieldPath

variable {value : Value} {names : List String} {d d' : Document} {c : Bool} {name : String}

/-! ## Where a value cannot be set -/

/-- A value cannot be set behind something that is no document, and the name that leads there is
told. -/
theorem setAt_eq_error_iff (value : Value) (names : List String) (d : Document) (name : String) :
    setAt value names d = .error name ↔ Blocked d names name := by
  induction names generalizing d with
  | nil =>
    constructor
    · intro hset
      cases hset
    · rintro ⟨_, _, _, hnames, -⟩
      simp at hnames
  | cons first rest ih =>
    rcases rest with _ | ⟨next, rest⟩
    · constructor
      · intro hset
        cases hset
      · exact fun hblocked => absurd hblocked not_blocked_single
    · cases hfound : Keyed.get? d first with
      | none =>
        refine ⟨fun hset => ?_, fun hblocked => absurd hblocked (not_blocked_of_none hfound)⟩
        obtain ⟨r, hr⟩ := (exists_setAt_iff value _ d).mpr (passable_cons_of_none hfound _)
        rw [hr] at hset
        cases hset
      | some v =>
        rw [blocked_cons, hfound]
        cases hv : v.fields? with
        | none =>
          have hset : setAt value (first :: next :: rest) d = .error first := by
            simp only [setAt, hfound]
            cases v <;> first | rfl | cases hv
          rw [hset]
          constructor
          · rintro ⟨⟩
            exact .inl ⟨v, rfl, hv, rfl⟩
          · rintro (⟨_, -, -, rfl⟩ | ⟨fields, hfields, -⟩)
            · rfl
            · cases hfields
              cases hv
        | some fields =>
          obtain rfl := Value.eq_document_of_fields? hv
          have hinside : setAt value (first :: next :: rest) d = .error name ↔
              setAt value (next :: rest) fields = .error name := by
            simp only [setAt, hfound]
            rcases setAt value (next :: rest) fields with e | ⟨sub, changed⟩
            · exact Iff.rfl
            · constructor
              · intro hset
                cases hset
              · intro hsub
                cases hsub
          rw [hinside, ih fields]
          constructor
          · exact fun hblocked => .inr ⟨fields, rfl, hblocked⟩
          · rintro (⟨w, hw, hfields, -⟩ | ⟨_, hfields, hblocked⟩)
            · cases hw
              cases hfields
            · cases hfields
              exact hblocked

/-! ## Walking -/

/-- Stores a value at the end of some names in place. A document that is missing under a name is
made before the walk goes on into it, and stays whatever is met behind it. -/
def setInPlace (value : Value) : List String → Document → Document × Except String Bool
  | [], d => (d, .ok false)
  | [name], d => (Keyed.put d name value, .ok (changes (Keyed.get? d name) value))
  | name :: rest, d =>
    let made := if Keyed.has d name then d else Keyed.put d name (.document [])
    match Keyed.get? made name with
    | some (.document fields) =>
      let (sub, outcome) := setInPlace value rest fields
      (Keyed.put made name (.document sub), outcome)
    | _ => (made, .error name)

/-- Walking leaves what setting makes of a document, and if it fails, the document as it was. -/
theorem setInPlace_eq (value : Value) (names : List String) (d : Document) :
    setInPlace value names d =
      match setAt value names d with
      | .ok (d', c) => (d', .ok c)
      | .error name => (d, .error name) := by
  induction names generalizing d with
  | nil => rfl
  | cons first rest ih =>
    rcases rest with _ | ⟨next, rest⟩
    · rfl
    · simp only [setInPlace, setAt]
      cases hfound : Keyed.get? d first with
      | none =>
        -- nothing is in the way in the document that has just been made
        obtain ⟨⟨sub, changed⟩, hsub⟩ :=
          (exists_setAt_iff value (next :: rest) []).mpr (passable_cons_of_none rfl rest)
        simp only [Keyed.has, hfound, Option.isSome_none, Bool.false_eq_true, if_false,
          Keyed.get?_put_self, ih, hsub, Keyed.put_put]
        rfl
      | some v =>
        simp only [Keyed.has, hfound, Option.isSome_some, if_true]
        cases hv : v.fields? with
        | none => cases v <;> first | rfl | cases hv
        | some fields =>
          obtain rfl := Value.eq_document_of_fields? hv
          dsimp only
          rw [ih]
          rcases setAt value (next :: rest) fields with e | ⟨sub, changed⟩
          · exact congrArg (·, _) (Keyed.put_self hfound)
          · rfl

/-! ## Documents in front -/

/-- Fields that have changed under one key alone: the others keep their values and their order, and
the key keeps its place, or is the last one if it is new. -/
structure ChangedAt (name : String) (fields fields' : Document) : Prop where
  others : Keyed.erase fields' name = Keyed.erase fields name
  order : Keyed.keys fields' =
    if name ∈ Keyed.keys fields then Keyed.keys fields else Keyed.keys fields ++ [name]

theorem changedAt_put (name : String) (fields : Document) (v : Value) :
    ChangedAt name fields (Keyed.put fields name v) :=
  ⟨Keyed.erase_put_self fields name v, Keyed.keys_put fields name v⟩

theorem changedAt_setAt {rest : List String} (hset : setAt value (name :: rest) d = .ok (d', c)) :
    ChangedAt name d d' := by
  rcases rest with _ | ⟨next, rest⟩
  · cases hset
    exact changedAt_put name d value
  · obtain ⟨_, sub, -, -, rfl⟩ := setAt_eq_ok hset
    exact changedAt_put name d (.document sub)

/-- In front of a value that has been set there are documents with one change each, under the name
that leads on to it. -/
theorem changedAt_descend_setAt {front rest : List String}
    (hset : setAt value (front ++ name :: rest) d = .ok (d', c)) :
    ∃ fields', (Value.document d').descend front = some (.document fields') ∧
      ChangedAt name (fieldsAt d front) fields' := by
  induction front generalizing d d' with
  | nil => exact ⟨d', rfl, changedAt_setAt hset⟩
  | cons first front ih =>
    obtain ⟨next, more, hmore⟩ := List.exists_cons_of_ne_nil (l := front ++ name :: rest) (by simp)
    rw [List.cons_append, hmore] at hset
    obtain ⟨fields, sub, hfound, hsub, rfl⟩ := setAt_eq_ok hset
    rw [← hmore] at hsub
    obtain ⟨fields', hfields', hchanged⟩ := ih hsub
    refine ⟨fields', (descend_put_self d first _ front).trans hfields', ?_⟩
    have hinside : fieldsAt d (first :: front) = fieldsAt fields front := by
      unfold fieldsAt
      rw [Value.descend_cons]
      rcases hfound with ⟨hnone, rfl⟩ | hfields
      · rw [hnone]
        exact (fieldsAt_empty front).symm
      · rw [hfields]
        rfl
    rwa [hinside]

/-- In front of what has been removed the documents have lost it, and nothing else. -/
theorem erased_descend_unsetAt {front rest : List String} {v : Value}
    (hfound : (Value.document d).descend (front ++ name :: rest) = some v) :
    ∃ fields fields', (Value.document d).descend front = some (.document fields) ∧
      (Value.document (unsetAt (front ++ name :: rest) d).1).descend front =
        some (.document fields') ∧
      if rest = [] then fields' = Keyed.erase fields name
      else Keyed.erase fields' name = Keyed.erase fields name ∧
        Keyed.keys fields' = Keyed.keys fields := by
  induction front generalizing d with
  | nil =>
    refine ⟨d, _, rfl, rfl, ?_⟩
    rcases rest with _ | ⟨next, rest⟩
    · rfl
    · obtain ⟨_, u, hd, hu, -⟩ := Value.descend_cons_eq_some hfound
      obtain rfl := Value.document.inj hd
      rw [if_neg (List.cons_ne_nil _ _), List.nil_append]
      rcases unsetAt_cons name next rest d with ⟨fields, -, hunset⟩ | ⟨-, hunset⟩
      · rw [hunset]
        have hkey : name ∈ Keyed.keys d := by
          rw [Keyed.mem_keys_iff, hu]
          rfl
        have hput := changedAt_put name d (.document (unsetAt (next :: rest) fields).1)
        exact ⟨hput.others, hput.order.trans (if_pos hkey)⟩
      · rw [hunset]
        exact ⟨rfl, rfl⟩
  | cons first front ih =>
    obtain ⟨next, more, hmore⟩ := List.exists_cons_of_ne_nil (l := front ++ name :: rest) (by simp)
    rw [List.cons_append, hmore] at hfound ⊢
    rcases unsetAt_cons first next more d with ⟨fields, hfields, hunset⟩ | ⟨hnone, -⟩
    · rw [descend_inside (.inr hfields), ← hmore] at hfound
      rw [hunset, ← hmore, descend_put_self, Value.descend_cons, hfields]
      exact ih hfound
    · rw [hnone] at hfound
      cases hfound

/-! ## Paths -/

/-- What a document becomes when a value is set at the end of some names. -/
structure Stored (value : Value) (names : List String) (d d' : Document) : Prop where
  here : (Value.document d').descend names = some value
  apart : ∀ other, Apart names other →
    (Value.document d').descend other = (Value.document d).descend other
  front : ∀ front name rest, names = front ++ name :: rest →
    ∃ fields', (Value.document d').descend front = some (.document fields') ∧
      ChangedAt name (fieldsAt d front) fields'

/-- What a document becomes when whatever is at the end of some names is removed. -/
structure Dropped (names : List String) (d d' : Document) : Prop where
  here : (Value.document d').descend names = none
  apart : ∀ other, Apart names other →
    (Value.document d').descend other = (Value.document d).descend other
  front : ∀ v, (Value.document d).descend names = some v → ∀ front name rest,
    names = front ++ name :: rest →
      ∃ fields fields', (Value.document d).descend front = some (.document fields) ∧
        (Value.document d').descend front = some (.document fields') ∧
        if rest = [] then fields' = Keyed.erase fields name
        else Keyed.erase fields' name = Keyed.erase fields name ∧
          Keyed.keys fields' = Keyed.keys fields
  absent : (Value.document d).descend names = none → d' = d

theorem stored_of_setAt (hnames : names ≠ []) (hset : setAt value names d = .ok (d', c)) :
    Stored value names d d' where
  here := descend_setAt_self hnames hset
  apart _ hapart := descend_setAt_apart hapart hset
  front := by
    rintro front name rest rfl
    exact changedAt_descend_setAt hset

theorem dropped_unsetAt (hnames : names ≠ []) (d : Document) :
    Dropped names d (unsetAt names d).1 where
  here := descend_unsetAt_self hnames d
  apart _ hapart := descend_unsetAt_apart hapart d
  front := by
    rintro v hfound front name rest rfl
    exact erased_descend_unsetAt hfound
  absent hfound := by rw [unsetAt_of_descend hfound]

theorem changes_iff {old : Option Value} {value : Value} :
    changes old value = true ↔ old = none ∨ ∃ v, old = some v ∧ v.alike value = false := by
  cases old with
  | none => simp [changes]
  | some v => simp [changes]

theorem setPath_eq_ok_iff {path : String} {r : Document × Bool} :
    setPath d path value = .ok r ↔ setAt value (segments path) d = .ok r := by
  unfold setPath
  rcases setAt value (segments path) d with name | s
  · constructor
    · intro h
      cases h
    · intro h
      cases h
  · constructor
    · rintro ⟨⟩
      rfl
    · rintro ⟨⟩
      rfl

theorem setPath_eq_error_iff {path : String} {e : UpdateError} :
    setPath d path value = .error e ↔
      ∃ name, Blocked d (segments path) name ∧ e = .notDocument path name := by
  simp only [← setAt_eq_error_iff value]
  unfold setPath
  rcases setAt value (segments path) d with name | r
  · constructor
    · rintro ⟨⟩
      exact ⟨name, rfl, rfl⟩
    · rintro ⟨_, ⟨⟩, rfl⟩
      rfl
  · constructor
    · intro h
      cases h
    · rintro ⟨_, hset, -⟩
      cases hset

/-- Setting and removing at a path are the tree updates that they stand for. A value that can be set
is what the path leads to, and setting it counts as a change unless something alike was there. It
cannot be set exactly if the path leads through something that is no document, and then not even a
walk that makes documents on its way has touched anything. Removing always goes through, and tells
whether something was there. -/
theorem path_updates (d : Document) (path : String) (value : Value) :
    let names := segments path
    (∀ d' c, setPath d path value = .ok (d', c) →
      Stored value names d d' ∧ setInPlace value names d = (d', .ok c) ∧
        (c = true ↔ (Value.document d).descend names = none ∨
          ∃ v, (Value.document d).descend names = some v ∧ v.alike value = false)) ∧
    (∀ e, setPath d path value = .error e ↔
      ∃ name, Blocked d names name ∧ e = .notDocument path name) ∧
    (∀ name, Blocked d names name → setInPlace value names d = (d, .error name)) ∧
    Dropped names d (unsetPath d path).1 ∧
    (unsetPath d path).2 = ((Value.document d).descend names).isSome := by
  intro names
  have hnames : names ≠ [] := segments_ne_nil path
  have hwalk := setInPlace_eq value names d
  refine ⟨fun d' c hset => ?_, fun e => setPath_eq_error_iff, fun name hblocked => ?_,
    dropped_unsetAt hnames d, removed_of_unsetAt hnames d⟩
  · rw [setPath_eq_ok_iff] at hset
    rw [hset] at hwalk
    refine ⟨stored_of_setAt hnames hset, hwalk, ?_⟩
    rw [changed_of_setAt hnames hset]
    exact changes_iff
  · rw [hwalk, (setAt_eq_error_iff value names d name).mpr hblocked]

/-- A box with a width. -/
def boxed : Document := [("box", .document [("width", .int32 2)]), ("stock", .int32 1)]

/-- A depth goes into a document that is made for it; a stock has no depth. -/
theorem path_updates_boxed :
    Stored (.int32 3) ["box", "inner", "depth"] boxed
      [("box", .document [("width", .int32 2), ("inner", .document [("depth", .int32 3)])]),
        ("stock", .int32 1)] ∧
    setPath boxed "stock.inner.depth" (.int32 3) =
      .error (.notDocument "stock.inner.depth" "stock") ∧
    setInPlace (.int32 3) ["stock", "inner", "depth"] boxed = (boxed, .error "stock") := by
  have hset : setPath boxed "box.inner.depth" (.int32 3) =
      .ok ([("box", .document [("width", .int32 2), ("inner", .document [("depth", .int32 3)])]),
        ("stock", .int32 1)], true) := by rfl
  have hblocked : Blocked boxed ["stock", "inner", "depth"] "stock" :=
    ⟨[], ["inner", "depth"], .int32 1, rfl, by decide, by rfl, rfl⟩
  obtain ⟨hstored, -⟩ := (path_updates boxed "box.inner.depth" (.int32 3)).1 _ _ hset
  obtain ⟨-, herror, hwalk, -⟩ := path_updates boxed "stock.inner.depth" (.int32 3)
  exact ⟨hstored, (herror _).mpr ⟨"stock", hblocked, rfl⟩, hwalk "stock" hblocked⟩

end Update

end DocQuery
