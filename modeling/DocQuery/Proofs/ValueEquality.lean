import DocQuery.Value.Equality

/-
  What the two equalities are as relations. A double may not be equal to itself, so a value without
  one is, in both of them; documents are compared as maps, which takes that no field name occurs
  twice. `same` is transitive; `alike` is not, since an integer may be equal to a double that two
  others go to, but on either side it may be followed by `same`.
-/

namespace DocQuery.Value

mutual

/-- Whether the value is a double or has one inside. -/
def hasDouble : Value → Bool
  | double _ => true
  | array items => itemsHaveDouble items
  | document fields => fieldsHaveDouble fields
  | scopedCode _ scope => fieldsHaveDouble scope
  | _ => false

def itemsHaveDouble : List Value → Bool
  | [] => false
  | v :: rest => hasDouble v || itemsHaveDouble rest

def fieldsHaveDouble : List (String × Value) → Bool
  | [] => false
  | (_, v) :: rest => hasDouble v || fieldsHaveDouble rest

end

/-- Whether the fields are what their names lead to in a document. -/
def ReadsBack (fields ys : List (String × Value)) : Prop :=
  ∀ e ∈ fields, Keyed.get? ys e.1 = some e.2

theorem readsBack_self {fields : List (String × Value)} (h : (Keyed.keys fields).Nodup) :
    ReadsBack fields fields :=
  fun e he => (Keyed.mem_iff_get? h e.1 e.2).mp he

mutual

theorem same_self : (v : Value) → v.WellFormed → v.hasDouble = false → same v v = true
  | double x, _, hd => by
    rw [hasDouble] at hd
    cases hd
  | array items, hw, hd => by
    rw [WellFormed] at hw
    rw [hasDouble] at hd
    rw [same]
    exact sameItems_self items hw hd
  | document fields, hw, hd => by
    rw [WellFormed] at hw
    rw [hasDouble] at hd
    rw [same, sameFields_of_readsBack fields fields (readsBack_self hw.1) hw.2 hd]
    simp
  | scopedCode text scope, hw, hd => by
    rw [WellFormed] at hw
    rw [hasDouble] at hd
    rw [same, sameFields_of_readsBack scope scope (readsBack_self hw.1) hw.2 hd]
    simp
  | null, _, _ | undefined, _, _ | minKey, _, _ | maxKey, _, _ => by rw [same]
  | bool b, _, _ => by simp [same]
  | int32 n, _, _ => by simp [same]
  | int64 n, _, _ => by simp [same]
  | string s, _, _ => by simp [same]
  | objectId id, _, _ => by simp [same]
  | dateTime t, _, _ => by simp [same]
  | timestamp t i, _, _ => by simp [same]
  | binary s bs, _, _ => by simp [same]
  | regex p o, _, _ => by simp [same]
  | symbol s, _, _ => by simp [same]
  | code s, _, _ => by simp [same]

theorem sameItems_self : (items : List Value) → WellFormedItems items →
    itemsHaveDouble items = false → sameItems items items = true
  | [], _, _ => by rw [sameItems]
  | v :: rest, hw, hd => by
    rw [WellFormedItems] at hw
    rw [itemsHaveDouble, Bool.or_eq_false_iff] at hd
    rw [sameItems, same_self v hw.1 hd.1, sameItems_self rest hw.2 hd.2]
    rfl

theorem sameFields_of_readsBack : (fields ys : List (String × Value)) → ReadsBack fields ys →
    WellFormedFields fields → fieldsHaveDouble fields = false → sameFields fields ys = true
  | [], _, _, _, _ => by rw [sameFields]
  | (k, v) :: rest, ys, hreads, hw, hd => by
    rw [WellFormedFields] at hw
    rw [fieldsHaveDouble, Bool.or_eq_false_iff] at hd
    have hhead : Keyed.get? ys k = some v := hreads (k, v) List.mem_cons_self
    have hrest : ReadsBack rest ys := fun e he => hreads e (List.mem_cons_of_mem _ he)
    rw [sameFields, hhead]
    dsimp only
    rw [same_self v hw.1 hd.1, sameFields_of_readsBack rest ys hrest hw.2 hd.2]
    rfl

end

/-- The two equalities differ on numbers of different kinds only. -/
theorem alike_self {v : Value} (hw : v.WellFormed) (hd : v.hasDouble = false) :
    v.alike v = true := by
  have hsame := same_self v hw hd
  cases v <;> exact hsame

theorem wellFormed_of_get? {fields : List (String × Value)} (h : WellFormedFields fields)
    {name : String} {v : Value} (hv : Keyed.get? fields name = some v) : v.WellFormed := by
  induction fields with
  | nil => cases hv
  | cons e fields ih =>
    obtain ⟨k, w⟩ := e
    rw [WellFormedFields] at h
    by_cases hk : k = name
    · rw [hk, Keyed.get?_cons_self] at hv
      exact Option.some.inj hv ▸ h.1
    · rw [Keyed.get?_cons_other hk] at hv
      exact ih h.2 hv

/-! ## Kinds -/

/-- Whether two values are of one kind. -/
def SameKind (v w : Value) : Prop := v.ctorIdx = w.ctorIdx

instance (v w : Value) : Decidable (SameKind v w) := inferInstanceAs (Decidable (_ = _))

theorem sameKind_of_same {v w : Value} (h : same v w = true) : SameKind v w := by
  unfold same at h
  split at h
  all_goals first | rfl | cases h

/-- Within a kind there is one equality. -/
theorem alike_eq_same {v w : Value} (h : SameKind v w) : v.alike w = same v w := by
  unfold alike
  split
  all_goals first | rfl | cases h

theorem exists_double {v : Value} {x : Double} (h : SameKind v (double x)) :
    ∃ y, v = double y := by
  cases v <;> first | exact ⟨_, rfl⟩ | nomatch h

theorem exists_document {v : Value} {fields : List (String × Value)}
    (h : SameKind v (document fields)) : ∃ xs, v = document xs := by
  cases v <;> first | exact ⟨_, rfl⟩ | nomatch h

/-- Whether the value is no double and has no other values inside. -/
def isPlain : Value → Bool
  | double _ | array _ | document _ | scopedCode _ _ => false
  | _ => true

theorem eq_of_same {v w : Value} (hv : v.isPlain = true) (h : same v w = true) : v = w := by
  unfold same at h
  split at h
  all_goals first | rfl | cases h | exact absurd hv Bool.false_ne_true | simpa using h

theorem eq_of_same_right {v w : Value} (hw : w.isPlain = true) (h : same v w = true) : v = w := by
  unfold same at h
  split at h
  all_goals first | rfl | cases h | exact absurd hw Bool.false_ne_true | simpa using h

/-! ## One equality after another -/

theorem sameFields_iff {xs ys : List (String × Value)} : sameFields xs ys = true ↔
    ∀ e ∈ xs, ∃ w, Keyed.get? ys e.1 = some w ∧ same e.2 w = true := by
  induction xs with
  | nil => simp [sameFields]
  | cons e xs ih =>
    obtain ⟨k, v⟩ := e
    rw [sameFields, Bool.and_eq_true, ih, List.forall_mem_cons]
    refine and_congr_left fun _ => ?_
    cases Keyed.get? ys k with
    | none => simp
    | some w => simp

theorem same_document_iff {xs ys : List (String × Value)} :
    same (document xs) (document ys) = true ↔ xs.length = ys.length ∧
      ∀ e ∈ xs, ∃ w, Keyed.get? ys e.1 = some w ∧ same e.2 w = true := by
  rw [same, Bool.and_eq_true, beq_iff_eq, sameFields_iff]

mutual

theorem same_trans : (u v w : Value) → same u v = true → same v w = true → same u w = true
  | array xs, v, w, h, h' => by
    cases v with
    | array ys =>
      cases w with
      | array zs =>
        rw [same] at h h' ⊢
        exact sameItems_trans xs ys zs h h'
      | _ => simp [same] at h'
    | _ => simp [same] at h
  | document xs, v, w, h, h' => by
    cases v with
    | document ys =>
      cases w with
      | document zs =>
        rw [same, Bool.and_eq_true, beq_iff_eq] at h h' ⊢
        exact ⟨h.1.trans h'.1, sameFields_trans xs ys zs h.2 h'.2⟩
      | _ => simp [same] at h'
    | _ => simp [same] at h
  | scopedCode text xs, v, w, h, h' => by
    cases v with
    | scopedCode text' ys =>
      cases w with
      | scopedCode text'' zs =>
        rw [same, Bool.and_eq_true, Bool.and_eq_true, beq_iff_eq, beq_iff_eq] at h h' ⊢
        exact ⟨h.1.trans h'.1, h.2.1.trans h'.2.1, sameFields_trans xs ys zs h.2.2 h'.2.2⟩
      | _ => simp [same] at h'
    | _ => simp [same] at h
  | double x, v, w, h, h' => by
    cases v with
    | double y =>
      cases w with
      | double z =>
        rw [same] at h h' ⊢
        exact Double.eq_trans h h'
      | _ => simp [same] at h'
    | _ => simp [same] at h
  | null, v, w, h, h' | bool _, v, w, h, h' | int32 _, v, w, h, h' | int64 _, v, w, h, h'
  | string _, v, w, h, h' | objectId _, v, w, h, h' | dateTime _, v, w, h, h'
  | timestamp _ _, v, w, h, h' | binary _ _, v, w, h, h' | regex _ _, v, w, h, h'
  | symbol _, v, w, h, h' | code _, v, w, h, h' | undefined, v, w, h, h' | minKey, v, w, h, h'
  | maxKey, v, w, h, h' => by
    rwa [eq_of_same rfl h]

theorem sameItems_trans : (xs ys zs : List Value) → sameItems xs ys = true →
    sameItems ys zs = true → sameItems xs zs = true
  | [], ys, zs, h, h' => by
    cases ys with
    | nil => exact h'
    | cons => simp [sameItems] at h
  | x :: xs, ys, zs, h, h' => by
    cases ys with
    | nil => simp [sameItems] at h
    | cons y ys =>
      cases zs with
      | nil => simp [sameItems] at h'
      | cons z zs =>
        rw [sameItems, Bool.and_eq_true] at h h' ⊢
        exact ⟨same_trans x y z h.1 h'.1, sameItems_trans xs ys zs h.2 h'.2⟩

theorem sameFields_trans : (xs ys zs : List (String × Value)) → sameFields xs ys = true →
    sameFields ys zs = true → sameFields xs zs = true
  | [], _, _, _, _ => by rw [sameFields]
  | (k, v) :: rest, ys, zs, h, h' => by
    obtain ⟨hfirst, hrest⟩ := List.forall_mem_cons.mp (sameFields_iff.mp h)
    obtain ⟨w, hw, hvw⟩ := hfirst
    obtain ⟨u, hu, hwu⟩ := sameFields_iff.mp h' (k, w) (Keyed.mem_of_get? hw)
    rw [sameFields, hu, Bool.and_eq_true]
    exact ⟨same_trans v w u hvw hwu,
      sameFields_trans rest ys zs (sameFields_iff.mpr hrest) h'⟩

end

theorem alike_of_same_left {u v w : Value} (h : same u v = true) (h' : v.alike w = true) :
    u.alike w = true := by
  by_cases hkind : SameKind v w
  · rw [alike_eq_same hkind] at h'
    rw [alike_eq_same ((sameKind_of_same h).trans hkind)]
    exact same_trans u v w h h'
  · unfold alike at h'
    split at h'
    case h_4 x y | h_6 x y =>
      obtain ⟨z, rfl⟩ := exists_double (sameKind_of_same h)
      rw [same] at h
      exact Double.eq_trans h h'
    case h_7 => exact absurd (sameKind_of_same h') hkind
    all_goals
      rw [eq_of_same_right rfl h]
      exact h'

theorem alike_of_same_right {u v w : Value} (h : u.alike v = true) (h' : same v w = true) :
    u.alike w = true := by
  by_cases hkind : SameKind u v
  · rw [alike_eq_same hkind] at h
    rw [alike_eq_same (hkind.trans (sameKind_of_same h'))]
    exact same_trans u v w h h'
  · unfold alike at h
    split at h
    case h_3 x y | h_5 x y =>
      obtain ⟨z, rfl⟩ := exists_double (sameKind_of_same h').symm
      rw [same] at h'
      exact Double.eq_trans h h'
    case h_7 => exact absurd (sameKind_of_same h) hkind
    all_goals
      rw [← eq_of_same rfl h']
      exact h

end DocQuery.Value
