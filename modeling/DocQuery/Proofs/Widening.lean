import DocQuery.Filter
import DocQuery.Proofs.Reloading

/-
  What a small negative integer becomes on its way through a file: the text does not tell its width,
  and the reader takes the larger one. A plain document comes back with its negative integers
  widened, and a filter cannot tell the difference unless it compares, by equality, values that both
  have a negative integer inside.
-/

namespace DocQuery

namespace Value

mutual

/-- A value with its negative integers as wide ones. -/
def widened : Value → Value
  | int32 n => if n.toInt < 0 then int64 n.toInt64 else int32 n
  | array items => array (widenedItems items)
  | document fields => document (widenedFields fields)
  | v => v

def widenedItems : List Value → List Value
  | [] => []
  | v :: rest => widened v :: widenedItems rest

def widenedFields : List (String × Value) → List (String × Value)
  | [] => []
  | (k, v) :: rest => (k, widened v) :: widenedFields rest

end

mutual

/-- A value of the kinds that JSON has as well, apart from wide integers and doubles, or an
identifier; no field name begins with a dollar sign. -/
def Plain : Value → Prop
  | null => True
  | bool _ => True
  | int32 _ => True
  | string _ => True
  | array items => PlainItems items
  | document fields => (Keyed.keys fields).Nodup ∧ PlainFields fields
  | objectId _ => True
  | _ => False

def PlainItems : List Value → Prop
  | [] => True
  | v :: rest => Plain v ∧ PlainItems rest

def PlainFields : List (String × Value) → Prop
  | [] => True
  | (k, v) :: rest => k.toList.head? ≠ some '$' ∧ Plain v ∧ PlainFields rest

end

mutual

/-- A value that is no negative integer and has none inside. -/
def NonNegative : Value → Prop
  | int32 n => 0 ≤ n.toInt
  | int64 n => 0 ≤ n.toInt
  | array items => NonNegativeItems items
  | document fields => NonNegativeFields fields
  | _ => True

def NonNegativeItems : List Value → Prop
  | [] => True
  | v :: rest => NonNegative v ∧ NonNegativeItems rest

def NonNegativeFields : List (String × Value) → Prop
  | [] => True
  | (_, v) :: rest => NonNegative v ∧ NonNegativeFields rest

end

/-- A value that has no negative integer inside; it may be one. -/
def NonNegativeInside : Value → Prop
  | array items => NonNegativeItems items
  | document fields => NonNegativeFields fields
  | _ => True

/-! ## Through a file -/

mutual

/-- The text does not change. -/
theorem toJson_widened (v : Value) : v.widened.toJson = v.toJson := by
  cases v with
  | int32 n =>
    unfold widened
    split
    · rw [toJson, toJson, Int32.toInt_toInt64]
    · rfl
  | array items => rw [widened, toJson, toJson, itemsToJson_widened items]
  | document fields => rw [widened, toJson, toJson, fieldsToJson_widened fields]
  | _ => rfl

theorem itemsToJson_widened : (items : List Value) →
    itemsToJson (widenedItems items) = itemsToJson items
  | [] => rfl
  | v :: rest => by
    rw [widenedItems, itemsToJson, itemsToJson, toJson_widened v, itemsToJson_widened rest]

theorem fieldsToJson_widened : (fields : List (String × Value)) →
    fieldsToJson (widenedFields fields) = fieldsToJson fields
  | [] => rfl
  | (k, v) :: rest => by
    rw [widenedFields, fieldsToJson, fieldsToJson, toJson_widened v, fieldsToJson_widened rest]

end

theorem keys_widenedFields (fields : List (String × Value)) :
    Keyed.keys (widenedFields fields) = Keyed.keys fields := by
  induction fields with
  | nil => rfl
  | cons e fields ih =>
    obtain ⟨k, v⟩ := e
    exact congrArg (k :: ·) ih

mutual

theorem reloadable_widened : (v : Value) → v.Plain → v.widened.Reloadable
  | .null, _ => trivial
  | .bool _, _ => trivial
  | .int32 n, _ => by
    unfold widened
    split
    · next hneg =>
      show n.toInt64.toInt < 0 ∨ _
      rw [Int32.toInt_toInt64]
      exact .inl hneg
    · next hpos => exact Int.not_lt.mp hpos
  | .string _, _ => trivial
  | .array items, h => reloadableItems_widened items h
  | .document fields, h => by
    refine ⟨?_, reloadableFields_widened fields h.2⟩
    rw [keys_widenedFields]
    exact h.1
  | .objectId _, _ => trivial

theorem reloadableItems_widened : (items : List Value) → PlainItems items →
    ReloadableItems (widenedItems items)
  | [], _ => trivial
  | v :: rest, h => ⟨reloadable_widened v h.1, reloadableItems_widened rest h.2⟩

theorem reloadableFields_widened : (fields : List (String × Value)) → PlainFields fields →
    ReloadableFields (widenedFields fields)
  | [], _ => trivial
  | (_, v) :: rest, h => ⟨h.1, reloadable_widened v h.2.1, reloadableFields_widened rest h.2.2⟩

end

end Value

/-- A plain document comes back from its line with its negative integers widened. -/
theorem CollectionFile.rereadDocument_of_plain {d : Document} (hplain : (Value.document d).Plain)
    (hdepth : (Value.toJson (.document d)).depth ≤ Json.maxDepth) :
    rereadDocument d = some (Value.widenedFields d) := by
  have hjson : Value.toJson (.document (Value.widenedFields d)) = Value.toJson (.document d) :=
    Value.toJson_widened (.document d)
  have htext : Value.documentText (Value.widenedFields d) = Value.documentText d := by
    unfold Value.documentText Value.jsonText
    rw [hjson]
  have hreloads : Reloads (Value.widenedFields d) := by
    refine ⟨Value.reloadable_widened (.document d) hplain, ?_⟩
    rw [hjson]
    exact hdepth
  rw [← rereadDocument_of_reloads hreloads]
  unfold rereadDocument
  rw [htext]

/-! ## In a filter -/

namespace Value

mutual

/-- A value without negative integers is widened to itself. -/
theorem widened_of_nonNegative (v : Value) (h : v.NonNegative) : v.widened = v := by
  cases v with
  | int32 n =>
    unfold widened
    rw [if_neg (Int.not_lt.mpr h)]
  | array items => exact congrArg array (widenedItems_of_nonNegative items h)
  | document fields => exact congrArg document (widenedFields_of_nonNegative fields h)
  | _ => rfl

theorem widenedItems_of_nonNegative : (items : List Value) → NonNegativeItems items →
    widenedItems items = items
  | [], _ => rfl
  | v :: rest, h => by
    rw [widenedItems, widened_of_nonNegative v h.1, widenedItems_of_nonNegative rest h.2]

theorem widenedFields_of_nonNegative : (fields : List (String × Value)) →
    NonNegativeFields fields → widenedFields fields = fields
  | [], _ => rfl
  | (k, v) :: rest, h => by
    rw [widenedFields, widened_of_nonNegative v h.1, widenedFields_of_nonNegative rest h.2]

end

theorem nonNegative_of_get? {fields : List (String × Value)} (h : NonNegativeFields fields)
    {k : String} {v : Value} (hv : Keyed.get? fields k = some v) : v.NonNegative := by
  induction fields with
  | nil => cases hv
  | cons e fields ih =>
    obtain ⟨k', v'⟩ := e
    unfold Keyed.get? at hv
    split at hv
    · cases hv
      exact h.1
    · exact ih h.2 hv

theorem length_widenedFields (fields : List (String × Value)) :
    (widenedFields fields).length = fields.length := by
  have hkeys := congrArg List.length (keys_widenedFields fields)
  unfold Keyed.keys at hkeys
  rwa [List.length_map, List.length_map] at hkeys

/-- A negative integer of either width is not the same as a value that is not negative. -/
theorem same_int32_neg {n : Int32} (hneg : n.toInt < 0) {w : Value} (h : w.NonNegative) :
    (int32 n).same w = false ∧ (int64 n.toInt64).same w = false := by
  cases w with
  | int32 m =>
    refine ⟨?_, rfl⟩
    have hne : n ≠ m := by
      rintro rfl
      exact absurd hneg (Int.not_lt.mpr h)
    simpa [same] using hne
  | int64 m =>
    refine ⟨rfl, ?_⟩
    have hne : n.toInt64 ≠ m := by
      rintro rfl
      have hpos : 0 ≤ n.toInt64.toInt := h
      rw [Int32.toInt_toInt64] at hpos
      omega
    simpa [same] using hne
  | _ => exact ⟨rfl, rfl⟩

mutual

/-- A value without negative integers does not tell another one from its widened form. -/
theorem same_widened (v w : Value) (h : w.NonNegative) : v.widened.same w = v.same w := by
  cases v with
  | int32 n =>
    unfold widened
    split
    · next hneg =>
      obtain ⟨hnarrow, hwide⟩ := same_int32_neg hneg h
      rw [hnarrow, hwide]
    · rfl
  | array items =>
    cases w with
    | array items' => exact sameItems_widened items items' h
    | _ => rfl
  | document fields =>
    cases w with
    | document fields' =>
      rw [widened, same, same, length_widenedFields, sameFields_widened fields fields' h]
    | _ => rfl
  | _ => rfl

theorem sameItems_widened : (items items' : List Value) → NonNegativeItems items' →
    sameItems (widenedItems items) items' = sameItems items items'
  | [], _, _ => rfl
  | _ :: _, [], _ => rfl
  | v :: rest, w :: rest', h => by
    rw [widenedItems, sameItems, sameItems, same_widened v w h.1, sameItems_widened rest rest' h.2]

theorem sameFields_widened : (fields fields' : List (String × Value)) → NonNegativeFields fields' →
    sameFields (widenedFields fields) fields' = sameFields fields fields'
  | [], _, _ => rfl
  | (k, v) :: rest, fields', h => by
    rw [widenedFields, sameFields, sameFields, sameFields_widened rest fields' h]
    cases hw : Keyed.get? fields' k with
    | none => rfl
    | some w =>
      dsimp only
      rw [same_widened v w (nonNegative_of_get? h hw)]

end

/-- As a number, an integer is alike to the same values as the wide integer of its value. -/
theorem alike_int64_toInt64 (n : Int32) (w : Value) :
    (int64 n.toInt64).alike w = (int32 n).alike w := by
  cases w with
  | int32 m =>
    show (n.toInt64.toInt == m.toInt) = (n == m)
    rw [Int32.toInt_toInt64, Bool.eq_iff_iff, beq_iff_eq, beq_iff_eq, Int32.toInt_inj]
  | int64 m =>
    show (n.toInt64 == m) = (n.toInt == m.toInt)
    rw [← Int32.toInt_toInt64, Bool.eq_iff_iff, beq_iff_eq, beq_iff_eq, Int64.toInt_inj]
  | double x =>
    show (Double.ofInt n.toInt64.toInt).eq x = (Double.ofInt n.toInt).eq x
    rw [Int32.toInt_toInt64]
  | _ => rfl

/-- Unless both have a negative integer inside, a value is alike to what its widened form is. -/
theorem alike_widened {v w : Value} (h : v.NonNegativeInside ∨ w.NonNegativeInside) :
    v.widened.alike w = v.alike w := by
  cases v with
  | int32 n =>
    unfold widened
    split
    · exact alike_int64_toInt64 n w
    · rfl
  | array items =>
    rcases h with h | h
    · rw [widened_of_nonNegative (.array items) h]
    · cases w with
      | array items' => exact sameItems_widened items items' h
      | _ => rfl
  | document fields =>
    rcases h with h | h
    · rw [widened_of_nonNegative (.document fields) h]
    · cases w with
      | document fields' => exact same_widened (.document fields) (.document fields') h
      | _ => rfl
  | _ => rfl

theorem toInt?_widened (v : Value) : v.widened.toInt? = v.toInt? := by
  cases v with
  | int32 n =>
    unfold widened
    split
    · exact congrArg some (Int32.toInt_toInt64 n)
    · rfl
  | _ => rfl

theorem toDouble?_widened (v : Value) : v.widened.toDouble? = v.toDouble? := by
  cases v with
  | int32 n =>
    unfold widened
    split
    · exact congrArg (some ∘ Double.ofInt) (Int32.toInt_toInt64 n)
    · rfl
  | _ => rfl

/-- The order of values does not depend on widths. -/
theorem compare?_widened (v w : Value) : v.widened.compare? w = v.compare? w := by
  unfold compare?
  rw [toInt?_widened, toDouble?_widened]
  cases v with
  | int32 n =>
    by_cases hneg : n.toInt < 0
    · rw [widened, if_pos hneg]
    · rw [widened, if_neg hneg]
  | _ => rfl

theorem get?_widenedFields (fields : List (String × Value)) (name : String) :
    Keyed.get? (widenedFields fields) name = (Keyed.get? fields name).map widened := by
  induction fields with
  | nil => rfl
  | cons e fields ih =>
    obtain ⟨k, v⟩ := e
    unfold widenedFields Keyed.get?
    split
    · rfl
    · exact ih

end Value

namespace FieldPath

theorem lookup_widenedFields (names : List String) (d : Document) :
    lookup (Value.widenedFields d) names = (lookup d names).map Value.widened := by
  induction names generalizing d with
  | nil => rfl
  | cons name rest ih =>
    cases rest with
    | nil => exact Value.get?_widenedFields d name
    | cons next rest =>
      simp only [lookup, Value.get?_widenedFields]
      cases hv : Keyed.get? d name with
      | none => rfl
      | some v =>
        cases v with
        | document fields => exact ih fields
        | int32 n =>
          by_cases hneg : n.toInt < 0
          · rw [Option.map_some, Value.widened, if_pos hneg]
            rfl
          · rw [Option.map_some, Value.widened, if_neg hneg]
            rfl
        | _ => rfl

theorem find?_widenedFields (d : Document) (path : String) :
    find? (Value.widenedFields d) path = (find? d path).map Value.widened := by
  unfold find?
  dsimp only
  split
  · exact lookup_widenedFields (segments path) d
  · rfl

end FieldPath

namespace Filter

mutual

/-- The values that a filter compares what is at a path with by equality, each with its path. -/
def equalities : Filter → List (String × Value)
  | all => []
  | and parts => equalitiesOfAll parts
  | or parts => equalitiesOfAll parts
  | not part => equalities part
  | present _ _ => []
  | among path values => values.map (path, ·)
  | notAmong path values => values.map (path, ·)
  | compare path op value => if op = .eq ∨ op = .ne then [(path, value)] else []

def equalitiesOfAll : List Filter → List (String × Value)
  | [] => []
  | f :: rest => equalities f ++ equalitiesOfAll rest

end

/-- Of two values that are compared by equality, what is at the path in a document and what is asked
for, at most one has a negative integer inside. -/
def Clear (d : Document) (equalities : List (String × Value)) : Prop :=
  ∀ e ∈ equalities, ∀ v, FieldPath.find? d e.1 = some v →
    v.NonNegativeInside ∨ e.2.NonNegativeInside

theorem isAmong_widened {found : Option Value} {values : List Value}
    (h : ∀ w ∈ values, ∀ v, found = some v → v.NonNegativeInside ∨ w.NonNegativeInside) :
    isAmong (found.map Value.widened) values = isAmong found values := by
  cases found with
  | none => rfl
  | some v =>
    have hany : ∀ w ∈ values, v.widened.alike w = v.alike w :=
      fun w hw => Value.alike_widened (h w hw v rfl)
    show values.any (fun w => v.widened.alike w) = values.any fun w => v.alike w
    rw [Bool.eq_iff_iff, List.any_eq_true, List.any_eq_true]
    exact exists_congr fun w => and_congr_right fun hw => by rw [hany w hw]

theorem holds_widened {op : FilterOp} {found : Option Value} {w : Value}
    (h : op = .eq ∨ op = .ne → ∀ v, found = some v → v.NonNegativeInside ∨ w.NonNegativeInside) :
    op.holds (found.map Value.widened) w = op.holds found w := by
  cases found with
  | none => rfl
  | some v =>
    cases op with
    | eq => exact Value.alike_widened (h (.inl rfl) v rfl)
    | ne => exact congrArg (!·) (Value.alike_widened (h (.inr rfl) v rfl))
    | _ => simp only [Option.map_some, FilterOp.holds, Value.compare?_widened]

theorem Clear.of_append {d : Document} {l l' : List (String × Value)} (h : Clear d (l ++ l')) :
    Clear d l ∧ Clear d l' :=
  ⟨fun e he => h e (List.mem_append_left _ he), fun e he => h e (List.mem_append_right _ he)⟩

theorem Clear.among {d : Document} {path : String} {values : List Value}
    (h : Clear d (values.map (path, ·))) : ∀ w ∈ values, ∀ v, FieldPath.find? d path = some v →
      v.NonNegativeInside ∨ w.NonNegativeInside :=
  fun w hw => h (path, w) (List.mem_map_of_mem hw)

mutual

/-- A filter matches a document with its negative integers widened exactly if it matches the
document. -/
theorem eval_widened {d : Document} : (f : Filter) → Clear d f.equalities →
    f.eval (Value.widenedFields d) = f.eval d
  | .all, _ => rfl
  | .and parts, h => evalAll_widened parts h
  | .or parts, h => evalAny_widened parts h
  | .not part, h => by
    rw [eval, eval, eval_widened part h]
  | .present path expected, _ => by
    rw [eval, eval, FieldPath.find?_widenedFields, Option.isSome_map]
  | .among path values, h => by
    rw [eval, eval, FieldPath.find?_widenedFields, isAmong_widened h.among]
  | .notAmong path values, h => by
    rw [eval, eval, FieldPath.find?_widenedFields, isAmong_widened h.among]
  | .compare path op value, h => by
    rw [eval, eval, FieldPath.find?_widenedFields]
    refine holds_widened ?_
    intro hop
    refine h (path, value) ?_
    rw [equalities, if_pos hop]
    exact List.mem_singleton_self _

theorem evalAll_widened {d : Document} : (parts : List Filter) → Clear d (equalitiesOfAll parts) →
    evalAll (Value.widenedFields d) parts = evalAll d parts
  | [], _ => rfl
  | f :: rest, h => by
    rw [evalAll, evalAll, eval_widened f h.of_append.1, evalAll_widened rest h.of_append.2]

theorem evalAny_widened {d : Document} : (parts : List Filter) → Clear d (equalitiesOfAll parts) →
    evalAny (Value.widenedFields d) parts = evalAny d parts
  | [], _ => rfl
  | f :: rest, h => by
    rw [evalAny, evalAny, eval_widened f h.of_append.1, evalAny_widened rest h.of_append.2]

end

end Filter
end DocQuery
