import DocQuery.Filter
import DocQuery.Proofs.ValueEquality

/-
  The order of fields. Two values are reorderings of one another if they differ in nothing but the
  order of fields, in the documents inside of them as well. Neither equality nor order can tell
  reorderings apart, on either side, and so no filter can: `eval_reordered` goes through the tree.

  The two sides of an equality are not alike. Its left is gone through field by field, where a
  permutation does no harm; on its right the fields are looked up, and a name that occurs twice is
  read at its first place. So the lemmas about the right ask for well-formed values.
-/

namespace DocQuery

/-- A test that goes through a list one by one does not see the order. -/
theorem test_perm {α : Type} (test : List α → Bool) {one : α → Bool}
    (hcons : ∀ a as, test (a :: as) = (one a && test as)) {as bs : List α} (h : as.Perm bs) :
    test as = test bs := by
  induction h with
  | nil => rfl
  | cons a _ ih => rw [hcons, hcons, ih]
  | swap a b as =>
    rw [hcons, hcons, hcons, hcons]
    exact Bool.and_left_comm _ _ _
  | trans _ _ ih ih' => rw [ih, ih']

/-! ## Values up to the order of fields -/

namespace Value

mutual

/-- Whether two values differ only in the order of the fields of documents. -/
inductive Reordered : Value → Value → Prop
  | refl (v : Value) : Reordered v v
  | array {xs ys : List Value} : ReorderedItems xs ys → Reordered (array xs) (array ys)
  | document {xs zs ys : List (String × Value)} :
    ReorderedFields xs zs → zs.Perm ys → Reordered (document xs) (document ys)
  | scopedCode (text : String) {xs zs ys : List (String × Value)} :
    ReorderedFields xs zs → zs.Perm ys → Reordered (scopedCode text xs) (scopedCode text ys)

/-- The items of an array stay where they are. -/
inductive ReorderedItems : List Value → List Value → Prop
  | nil : ReorderedItems [] []
  | cons {v w : Value} {xs ys : List Value} :
    Reordered v w → ReorderedItems xs ys → ReorderedItems (v :: xs) (w :: ys)

/-- Fields that stay where they are while their values are reordered. -/
inductive ReorderedFields : List (String × Value) → List (String × Value) → Prop
  | nil : ReorderedFields [] []
  | cons (k : String) {v w : Value} {xs ys : List (String × Value)} :
    Reordered v w → ReorderedFields xs ys → ReorderedFields ((k, v) :: xs) ((k, w) :: ys)

end

theorem ReorderedItems.length_eq : {xs ys : List Value} → ReorderedItems xs ys →
    xs.length = ys.length
  | _, _, .nil => rfl
  | _, _, .cons _ h => congrArg Nat.succ h.length_eq

/-- What a reordering does not change of any item, it does not change of the items together. -/
theorem ReorderedItems.map_eq {β : Type} {p : Value → β} : {xs ys : List Value} →
    ReorderedItems xs ys → (∀ v w, v ∈ xs → Reordered v w → p v = p w) → xs.map p = ys.map p
  | _, _, .nil, _ => rfl
  | _, _, .cons hv h, hp => by
    have hrest := h.map_eq fun v w hmem => hp v w (List.mem_cons_of_mem _ hmem)
    rw [List.map_cons, List.map_cons, hp _ _ List.mem_cons_self hv, hrest]

theorem ReorderedItems.all_eq {p : Value → Bool} {xs ys : List Value} (h : ReorderedItems xs ys)
    (hp : ∀ v w, v ∈ xs → Reordered v w → p v = p w) : xs.all p = ys.all p := by
  have hmap := congrArg (·.all id) (h.map_eq hp)
  simpa using hmap

theorem ReorderedItems.any_eq {p : Value → Bool} {xs ys : List Value} (h : ReorderedItems xs ys)
    (hp : ∀ v w, v ∈ xs → Reordered v w → p v = p w) : xs.any p = ys.any p := by
  have hmap := congrArg (·.any id) (h.map_eq hp)
  simpa using hmap

theorem wellFormed_of_mem {items : List Value} (h : WellFormedItems items) {v : Value}
    (hv : v ∈ items) : v.WellFormed := by
  induction items with
  | nil => cases hv
  | cons w rest ih =>
    rw [WellFormedItems] at h
    rcases List.mem_cons.mp hv with rfl | hv
    · exact h.1
    · exact ih h.2 hv

theorem ReorderedFields.keys_eq : {xs zs : List (String × Value)} → ReorderedFields xs zs →
    Keyed.keys xs = Keyed.keys zs
  | _, _, .nil => rfl
  | _, _, .cons k _ h => congrArg (k :: ·) h.keys_eq

theorem ReorderedFields.length_eq {xs zs : List (String × Value)} (h : ReorderedFields xs zs) :
    xs.length = zs.length := by
  have hkeys := congrArg List.length h.keys_eq
  simpa [Keyed.keys] using hkeys

theorem ReorderedFields.refl : (fields : List (String × Value)) → ReorderedFields fields fields
  | [] => .nil
  | (k, v) :: rest => .cons k (.refl v) (ReorderedFields.refl rest)

/-- Fields that change places. -/
theorem Reordered.of_perm {xs ys : List (String × Value)} (h : xs.Perm ys) :
    Reordered (.document xs) (.document ys) :=
  .document (.refl xs) h

/-! ## Looking fields up -/

theorem ReorderedFields.get? (name : String) : {xs zs : List (String × Value)} →
    ReorderedFields xs zs → Option.Rel Reordered (Keyed.get? xs name) (Keyed.get? zs name)
  | _, _, .nil => .none
  | _, _, .cons k hv h => by
    by_cases hk : k = name
    · subst hk
      rw [Keyed.get?_cons_self, Keyed.get?_cons_self]
      exact .some hv
    · rw [Keyed.get?_cons_other hk, Keyed.get?_cons_other hk]
      exact h.get? name

theorem rel_refl (found : Option Value) : Option.Rel Reordered found found := by
  cases found with
  | none => exact .none
  | some v => exact .some (.refl v)

/-- A field is found wherever it stands. -/
theorem get?_reordered {d d' : List (String × Value)}
    (h : Reordered (.document d) (.document d')) (hnodup : (Keyed.keys d).Nodup) (name : String) :
    Option.Rel Reordered (Keyed.get? d name) (Keyed.get? d' name) := by
  cases h with
  | refl => exact rel_refl _
  | document h hperm =>
    rw [h.keys_eq] at hnodup
    rw [← Keyed.get?_perm hperm hnodup]
    exact h.get? name

/-- What is asked of the value of a field. -/
theorem any_reordered {found found' : Option Value} (h : Option.Rel Reordered found found')
    {p : Value → Bool} (hp : ∀ v v', found = some v → Reordered v v' → p v = p v') :
    found.any p = found'.any p := by
  cases h with
  | none => rfl
  | some h => exact hp _ _ rfl h

/-! ## Equality and order -/

theorem sameFields_cons (k : String) (v : Value) (xs ys : List (String × Value)) :
    sameFields ((k, v) :: xs) ys = ((Keyed.get? ys k).any (same v) && sameFields xs ys) := by
  rw [sameFields]
  cases Keyed.get? ys k <;> rfl

mutual

/-- Equality does not see the order of fields on its left. -/
theorem same_left : {v v' : Value} → Reordered v v' → (w : Value) → same v w = same v' w
  | _, _, .refl _, _ => rfl
  | _, _, .array h, w => by
    cases w with
    | array ys => rw [same, same, sameItems_left h ys]
    | _ => simp [same]
  | _, _, .document h hperm, w => by
    cases w with
    | document ys => rw [same, same, h.length_eq, hperm.length_eq, sameFields_left h hperm ys]
    | _ => simp [same]
  | _, _, .scopedCode text h hperm, w => by
    cases w with
    | scopedCode text' ys =>
      rw [same, same, h.length_eq, hperm.length_eq, sameFields_left h hperm ys]
    | _ => simp [same]

theorem sameItems_left : {xs xs' : List Value} → ReorderedItems xs xs' → (ys : List Value) →
    sameItems xs ys = sameItems xs' ys
  | _, _, .nil, _ => rfl
  | _, _, .cons hv h, ys => by
    cases ys with
    | nil => simp [sameItems]
    | cons y ys => rw [sameItems, sameItems, same_left hv y, sameItems_left h ys]

theorem sameFields_left {xs zs xs' : List (String × Value)} (h : ReorderedFields xs zs)
    (hperm : zs.Perm xs') (ys : List (String × Value)) : sameFields xs ys = sameFields xs' ys := by
  rw [sameValues_left h ys]
  exact test_perm (sameFields · ys) (fun e xs => sameFields_cons e.1 e.2 xs ys) hperm

theorem sameValues_left : {xs zs : List (String × Value)} → ReorderedFields xs zs →
    (ys : List (String × Value)) → sameFields xs ys = sameFields zs ys
  | _, _, .nil, _ => rfl
  | _, _, .cons k hv h, ys => by
    have hsame : same _ = same _ := funext fun w => same_left hv w
    rw [sameFields_cons, sameFields_cons, sameValues_left h ys, hsame]

end

-- The recursion is on the left: a field that is found by name on the right is no part of the
-- reordering that a recursion could go into.
mutual

/-- Equality does not see the order of fields on its right, where fields are looked up by name. -/
theorem same_right : (v : Value) → {w w' : Value} → Reordered w w' → w.WellFormed →
    same v w = same v w'
  | _, _, _, .refl _, _ => rfl
  | v, _, _, .array h, hw => by
    rw [WellFormed] at hw
    cases v with
    | array xs => rw [same, same, sameItems_right xs h hw]
    | _ => simp [same]
  | v, _, _, .document h hperm, hw => by
    rw [WellFormed] at hw
    cases v with
    | document xs =>
      have hfound := get?_reordered (.document h hperm) hw.1
      rw [same, same, h.length_eq, hperm.length_eq, sameFields_right xs hfound hw.2]
    | _ => simp [same]
  | v, _, _, .scopedCode text h hperm, hw => by
    rw [WellFormed] at hw
    cases v with
    | scopedCode text' xs =>
      have hfound := get?_reordered (.document h hperm) hw.1
      rw [same, same, h.length_eq, hperm.length_eq, sameFields_right xs hfound hw.2]
    | _ => simp [same]

theorem sameItems_right : (xs : List Value) → {ys ys' : List Value} → ReorderedItems ys ys' →
    WellFormedItems ys → sameItems xs ys = sameItems xs ys'
  | _, _, _, .nil, _ => rfl
  | xs, _, _, .cons hv h, hw => by
    rw [WellFormedItems] at hw
    cases xs with
    | nil => simp [sameItems]
    | cons x xs => rw [sameItems, sameItems, same_right x hv hw.1, sameItems_right xs h hw.2]

theorem sameFields_right : (xs : List (String × Value)) → {ys ys' : List (String × Value)} →
    (∀ name, Option.Rel Reordered (Keyed.get? ys name) (Keyed.get? ys' name)) →
    WellFormedFields ys → sameFields xs ys = sameFields xs ys'
  | [], _, _, _, _ => rfl
  | (k, v) :: rest, ys, ys', hfound, hw => by
    have hk : (Keyed.get? ys k).any (same v) = (Keyed.get? ys' k).any (same v) :=
      any_reordered (hfound k) fun w _ hget hr =>
        same_right v hr (wellFormed_of_get? hw hget)
    rw [sameFields_cons, sameFields_cons, sameFields_right rest hfound hw, hk]

end

theorem alike_left {v v' : Value} (h : Reordered v v') (w : Value) : v.alike w = v'.alike w := by
  have hsame := same_left h w
  cases h with
  | refl => rfl
  | array | document | scopedCode => exact hsame

theorem alike_right (v : Value) {w w' : Value} (h : Reordered w w') (hw : w.WellFormed) :
    v.alike w = v.alike w' := by
  have hsame := same_right v h hw
  cases h with
  | refl => rfl
  | array | document | scopedCode => cases v <;> exact hsame

/-- Documents and arrays are in no order, and neither is what is inside of them. -/
theorem compare?_left {v v' : Value} (h : Reordered v v') (w : Value) :
    v.compare? w = v'.compare? w := by
  cases h with
  | refl => rfl
  | array | document | scopedCode => simp [compare?, toInt?, toDouble?]

theorem compare?_right (v : Value) {w w' : Value} (h : Reordered w w') :
    v.compare? w = v.compare? w' := by
  cases h with
  | refl => rfl
  | array | document | scopedCode => cases v <;> simp [compare?, toInt?, toDouble?]

end Value

/-! ## A reordered document -/

namespace FieldPath

open Value (Reordered)

/-- A path leads to the same value, reordered. -/
theorem lookup_reordered (names : List String) {d d' : Document}
    (h : Reordered (.document d) (.document d')) (hd : (Value.document d).WellFormed) :
    Option.Rel Reordered (lookup d names) (lookup d' names) := by
  induction names generalizing d d' with
  | nil => exact .none
  | cons name rest ih =>
    rw [Value.WellFormed] at hd
    have hname := Value.get?_reordered h hd.1 name
    cases rest with
    | nil =>
      rw [lookup, lookup]
      exact hname
    | cons next rest =>
      rw [lookup, lookup]
      · generalize hfound : Keyed.get? d name = found at hname ⊢
        generalize Keyed.get? d' name = found' at hname ⊢
        cases hname with
        | none => exact .none
        | some hv =>
          cases hv with
          | refl => exact Value.rel_refl _
          | array | scopedCode => exact .none
          | document hfields hperm =>
            exact ih (.document hfields hperm) (Value.wellFormed_of_get? hd.2 hfound)
      all_goals nofun

theorem find?_reordered {d d' : Document} (h : Reordered (.document d) (.document d'))
    (hd : (Value.document d).WellFormed) (path : String) :
    Option.Rel Reordered (find? d path) (find? d' path) := by
  unfold find?
  dsimp only
  split
  · exact lookup_reordered _ h hd
  · exact .none

end FieldPath

namespace Filter

open Value

theorem holds_found_reordered {found found' : Option Value}
    (h : Option.Rel Reordered found found') (op : FilterOp) (operand : Value) :
    op.holds found operand = op.holds found' operand := by
  cases h with
  | none => rfl
  | some hv => cases op <;> simp only [FilterOp.holds, alike_left hv, compare?_left hv]

theorem isAmong_found_reordered {found found' : Option Value}
    (h : Option.Rel Reordered found found') (values : List Value) :
    isAmong found values = isAmong found' values := by
  cases h with
  | none => rfl
  | some hv => simp only [isAmong, alike_left hv]

theorem isSome_reordered {found found' : Option Value} (h : Option.Rel Reordered found found') :
    found.isSome = found'.isSome := by
  cases h <;> rfl

mutual

/-- No filter sees the order of the fields of the document that it is asked of. -/
theorem eval_reordered {d d' : Document} (h : Reordered (.document d) (.document d'))
    (hd : (Value.document d).WellFormed) : (f : Filter) → f.eval d = f.eval d'
  | .all => rfl
  | .and parts => evalAll_reordered h hd parts
  | .or parts => evalAny_reordered h hd parts
  | .not part => by rw [eval, eval, eval_reordered h hd part]
  | .present path expected => by
    rw [eval, eval, isSome_reordered (FieldPath.find?_reordered h hd path)]
  | .among path values => by
    rw [eval, eval, isAmong_found_reordered (FieldPath.find?_reordered h hd path)]
  | .notAmong path values => by
    rw [eval, eval, isAmong_found_reordered (FieldPath.find?_reordered h hd path)]
  | .compare path op value => by
    rw [eval, eval, holds_found_reordered (FieldPath.find?_reordered h hd path)]

theorem evalAll_reordered {d d' : Document} (h : Reordered (.document d) (.document d'))
    (hd : (Value.document d).WellFormed) :
    (parts : List Filter) → evalAll d parts = evalAll d' parts
  | [] => rfl
  | f :: parts => by rw [evalAll, evalAll, eval_reordered h hd f, evalAll_reordered h hd parts]

theorem evalAny_reordered {d d' : Document} (h : Reordered (.document d) (.document d'))
    (hd : (Value.document d).WellFormed) :
    (parts : List Filter) → evalAny d parts = evalAny d' parts
  | [] => rfl
  | f :: parts => by rw [evalAny, evalAny, eval_reordered h hd f, evalAny_reordered h hd parts]

end

end Filter

end DocQuery
