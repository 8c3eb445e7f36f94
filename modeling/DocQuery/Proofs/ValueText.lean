import DocQuery.ExtendedJson.Reader
import DocQuery.Proofs.NumberText
import DocQuery.Proofs.ScalarTexts

/-
  Values written as JSON text and read again. A reloadable value comes back as it was: the same
  kind, the same fields in the same order. What keeps a value from being reloadable is what the
  format does not tell apart: the width of a small integer, a number from its text, and a field
  name from a mark of the format.
-/

namespace DocQuery

namespace ExtendedJson

/-- The names that make an object stand for a single value, code aside. -/
def reservedNames : List String :=
  ["$oid", "$symbol", "$numberInt", "$numberLong", "$numberDouble", "$binary", "$uuid",
    "$timestamp", "$regularExpression", "$date", "$maxKey", "$minKey", "$undefined", "$dbPointer",
    "$numberDecimal", "$numberDecimalBytes"]

theorem scalar?_eq_none_iff (key : String) (j : Json) :
    scalar? key j = none ↔ key ∉ reservedNames := by
  unfold scalar?
  split
  case h_17 =>
    simp only [reservedNames, List.mem_cons, List.not_mem_nil, or_false]
    simp_all
  all_goals simp [reservedNames]

end ExtendedJson

namespace Value

/-! ## The JSON form fits -/

theorem fits_natCast {n : Nat} (h : n < Json.wordLimit) : Json.Fits (.int n) := by
  constructor
  · have : (0 : Int) ≤ n := Int.natCast_nonneg n
    omega
  · exact_mod_cast h

theorem fitsItems_bytes (bytes : List UInt8) :
    Json.FitsItems (bytes.map fun b => .int b.toNat) := by
  induction bytes with
  | nil => trivial
  | cons b bytes ih =>
    have hb := b.toNat_lt
    exact ⟨fits_natCast (by unfold Json.wordLimit; omega), ih⟩

mutual

theorem fits_toJson : (v : Value) → Json.Fits v.toJson
  | .null => trivial
  | .bool _ => trivial
  | .int32 n => by
    have hlow := n.le_toInt
    have hhigh := n.toInt_lt
    constructor <;> simp only [Json.wordLimit] <;> omega
  | .int64 n => by
    have hlow := n.le_toInt
    have hhigh := n.toInt_lt
    constructor <;> simp only [Json.wordLimit] <;> omega
  | .double x => by
    unfold toJson
    split
    · next hx => exact Json.fits_double hx
    · trivial
  | .string _ => trivial
  | .array items => fitsItems_itemsToJson items
  | .document fields => fitsMembers_fieldsToJson fields
  | .objectId _ => ⟨trivial, trivial⟩
  | .dateTime _ => ⟨⟨trivial, trivial⟩, trivial⟩
  | .timestamp t i => by
    have ht := t.toNat_lt
    have hi := i.toNat_lt
    exact ⟨⟨fits_natCast (by unfold Json.wordLimit; omega),
      fits_natCast (by unfold Json.wordLimit; omega), trivial⟩, trivial⟩
  | .binary subtype bytes => by
    unfold toJson
    split
    · exact fitsItems_bytes bytes
    · exact ⟨⟨trivial, trivial, trivial⟩, trivial⟩
  | .regex _ _ => ⟨⟨trivial, trivial, trivial⟩, trivial⟩
  | .symbol _ => ⟨trivial, trivial⟩
  | .code _ => ⟨trivial, trivial⟩
  | .scopedCode _ scope => ⟨trivial, fitsMembers_fieldsToJson scope, trivial⟩
  | .undefined => ⟨trivial, trivial⟩
  | .minKey => ⟨fits_natCast (by decide), trivial⟩
  | .maxKey => ⟨fits_natCast (by decide), trivial⟩

theorem fitsItems_itemsToJson : (items : List Value) → Json.FitsItems (itemsToJson items)
  | [] => trivial
  | v :: rest => ⟨fits_toJson v, fitsItems_itemsToJson rest⟩

theorem fitsMembers_fieldsToJson : (fields : List (String × Value)) →
    Json.FitsMembers (fieldsToJson fields)
  | [] => trivial
  | (_, v) :: rest => ⟨fits_toJson v, fitsMembers_fieldsToJson rest⟩

end

/-! ## Members one by one -/

/-- A name that is neither code nor a scope, nor reserved. -/
structure IsField (key : String) : Prop where
  code : key ≠ "$code"
  scope : key ≠ "$scope"
  reserved : key ∉ ExtendedJson.reservedNames

theorem ofMembers?_field {key : String} (hkey : IsField key) (fields : List (String × Value))
    (j : Json) (rest : List (String × Json)) :
    ofMembers? fields ((key, j) :: rest) =
      (ofJson? j).bind fun v => ofMembers? (Keyed.put fields key v) rest := by
  have hscalar := (ExtendedJson.scalar?_eq_none_iff key j).mpr hkey.reserved
  rw [ofMembers?.eq_def]
  dsimp only
  rw [if_neg hkey.code, if_neg hkey.scope, hscalar]
  cases ofJson? j <;> rfl

theorem ofMembers?_scalar {key : String} {j : Json} {r : Option Value} (hcode : key ≠ "$code")
    (hscope : key ≠ "$scope") (h : ExtendedJson.scalar? key j = some r)
    (fields : List (String × Value)) (rest : List (String × Json)) :
    ofMembers? fields ((key, j) :: rest) = if rest.isEmpty then r else none := by
  rw [ofMembers?.eq_def]
  dsimp only
  rw [if_neg hcode, if_neg hscope, h]

/-! ## Values that come back as they were -/

mutual

/-- A value that its text leads back to. -/
def Reloadable : Value → Prop
  | null => True
  | bool _ => True
  | int32 n => 0 ≤ n.toInt
  | int64 n => n.toInt < 0 ∨ 2147483647 < n.toInt
  | string _ => True
  | array items => ReloadableItems items
  | document fields => (Keyed.keys fields).Nodup ∧ ReloadableFields fields
  | objectId _ => True
  | dateTime _ => True
  | timestamp _ _ => True
  | binary subtype _ => subtype ≠ 0
  | _ => False

def ReloadableItems : List Value → Prop
  | [] => True
  | v :: rest => Reloadable v ∧ ReloadableItems rest

/-- Field names do not begin with a dollar sign. -/
def ReloadableFields : List (String × Value) → Prop
  | [] => True
  | (k, v) :: rest => k.toList.head? ≠ some '$' ∧ Reloadable v ∧ ReloadableFields rest

end

theorem isField_of_head? {key : String} (h : key.toList.head? ≠ some '$') : IsField key := by
  refine ⟨?_, ?_, ?_⟩
  · rintro rfl
    exact h (by decide)
  · rintro rfl
    exact h (by decide)
  · intro hmem
    have hall : ∀ name ∈ ExtendedJson.reservedNames, name.toList.head? = some '$' := by decide
    exact h (hall key hmem)

mutual

theorem reread_toJson : (v : Value) → v.Reloadable → Json.reread v.toJson = v.toJson
  | .null, _ => rfl
  | .bool _, _ => rfl
  | .int32 _, _ => rfl
  | .int64 _, _ => rfl
  | .string _, _ => rfl
  | .array items, h => congrArg Json.array (rereadItems_itemsToJson items h)
  | .document fields, h => congrArg Json.object (rereadMembers_fieldsToJson fields h.2)
  | .objectId _, _ => rfl
  | .dateTime _, _ => rfl
  | .timestamp _ _, _ => rfl
  | .binary subtype bytes, h => by
    have hsub : subtype ≠ 0 := h
    rw [toJson, if_neg hsub]
    rfl

theorem rereadItems_itemsToJson : (items : List Value) → ReloadableItems items →
    Json.rereadItems (itemsToJson items) = itemsToJson items
  | [], _ => rfl
  | v :: rest, h => by
    rw [itemsToJson, Json.rereadItems, reread_toJson v h.1, rereadItems_itemsToJson rest h.2]

theorem rereadMembers_fieldsToJson : (fields : List (String × Value)) → ReloadableFields fields →
    Json.rereadMembers (fieldsToJson fields) = fieldsToJson fields
  | [], _ => rfl
  | (k, v) :: rest, h => by
    rw [fieldsToJson, Json.rereadMembers, reread_toJson v h.2.1, rereadMembers_fieldsToJson rest h.2.2]

end

theorem integerValue?_int32 {n : Int32} (h : 0 ≤ n.toInt) :
    ExtendedJson.integerValue? n.toInt = some (.int32 n) := by
  have hhigh := n.toInt_lt
  unfold ExtendedJson.integerValue?
  rw [if_neg (by omega), if_pos (by omega), Int32.ofInt_toInt]

theorem integerValue?_int64 {n : Int64} (h : n.toInt < 0 ∨ 2147483647 < n.toInt) :
    ExtendedJson.integerValue? n.toInt = some (.int64 n) := by
  unfold ExtendedJson.integerValue?
  rw [ExtendedJson.int64?_toInt]
  split_ifs with hneg hsmall
  · rfl
  · omega
  · rfl

theorem scalar?_oid (id : ObjectId) :
    ExtendedJson.scalar? "$oid" (.string id.hex) = some (some (.objectId id)) := by
  show some ((ExtendedJson.objectId? id.hex).map Value.objectId) = _
  rw [ExtendedJson.objectId?_hex]
  rfl

theorem scalar?_date (ms : Int64) :
    ExtendedJson.scalar? "$date" (.object [("$numberLong", .string (decimalText ms.toInt))]) =
      some (some (.dateTime ms)) := by
  show some ((ExtendedJson.integer? (decimalText ms.toInt)).bind fun n =>
    (ExtendedJson.int64? n).map Value.dateTime) = _
  rw [ExtendedJson.integer?_decimalText, Option.bind_some, ExtendedJson.int64?_toInt]
  rfl

theorem scalar?_timestamp (t i : UInt32) :
    ExtendedJson.scalar? "$timestamp" (.object [("t", .int t.toNat), ("i", .int i.toNat)]) =
      some (some (.timestamp t i)) := by
  have ht := t.toNat_lt
  have hi := i.toNat_lt
  have hbody : ExtendedJson.body? ["t", "i"] (.object [("t", .int t.toNat), ("i", .int i.toNat)]) =
      some [.int t.toNat, .int i.toNat] := rfl
  show some (ExtendedJson.timestamp? _) = _
  rw [ExtendedJson.timestamp?, ExtendedJson.pair?, hbody]
  dsimp only
  rw [if_pos (by simp only [Bool.and_eq_true, decide_eq_true_eq]; omega)]
  simp

theorem scalar?_binary (subtype : UInt8) (bytes : List UInt8) :
    ExtendedJson.scalar? "$binary" (.object
      [("base64", .string (String.ofList (Encoding.toBase64 bytes))),
       ("subType", .string (String.ofList (Encoding.hexByte subtype)))]) =
      some (some (.binary subtype bytes)) := by
  have hbody : ExtendedJson.body? ["base64", "subType"] (.object
      [("base64", .string (String.ofList (Encoding.toBase64 bytes))),
       ("subType", .string (String.ofList (Encoding.hexByte subtype)))]) =
      some [.string (String.ofList (Encoding.toBase64 bytes)),
        .string (String.ofList (Encoding.hexByte subtype))] := rfl
  show some (ExtendedJson.binary? _) = _
  rw [ExtendedJson.binary?, ExtendedJson.pair?, hbody]
  dsimp only
  rw [String.toList_ofList, String.toList_ofList, Encoding.ofBase64?_toBase64,
    Encoding.ofHex?_hexByte]

mutual

/-- A reloadable value comes back from its JSON form. -/
theorem ofJson?_toJson : (v : Value) → v.Reloadable → ofJson? v.toJson = some v
  | .null, _ => rfl
  | .bool _, _ => rfl
  | .int32 _, h => integerValue?_int32 h
  | .int64 _, h => integerValue?_int64 h
  | .string _, _ => rfl
  | .array items, h => by
    rw [toJson, ofJson?, itemsOfJson?_itemsToJson items h]
    rfl
  | .document fields, h => by
    rw [toJson, ofJson?]
    exact ofMembers?_fieldsToJson fields [] h.1 h.2
  | .objectId id, _ => by
    rw [toJson, ofJson?, ofMembers?_scalar (by decide) (by decide) (scalar?_oid id)]
    rfl
  | .dateTime ms, _ => by
    rw [toJson, ofJson?, ofMembers?_scalar (by decide) (by decide) (scalar?_date ms)]
    rfl
  | .timestamp t i, _ => by
    rw [toJson, ofJson?, ofMembers?_scalar (by decide) (by decide) (scalar?_timestamp t i)]
    rfl
  | .binary subtype bytes, h => by
    have hsub : subtype ≠ 0 := h
    rw [toJson, if_neg hsub, ofJson?,
      ofMembers?_scalar (by decide) (by decide) (scalar?_binary subtype bytes)]
    rfl

theorem itemsOfJson?_itemsToJson : (items : List Value) → ReloadableItems items →
    itemsOfJson? (itemsToJson items) = some items
  | [], _ => rfl
  | v :: rest, h => by
    rw [itemsToJson, itemsOfJson?, ofJson?_toJson v h.1, itemsOfJson?_itemsToJson rest h.2]

theorem ofMembers?_fieldsToJson : (rest : List (String × Value)) →
    (fields : List (String × Value)) → (Keyed.keys (fields ++ rest)).Nodup →
    ReloadableFields rest → ofMembers? fields (fieldsToJson rest) = some (.document (fields ++ rest))
  | [], fields, _, _ => by
    rw [fieldsToJson, ofMembers?, List.append_nil]
  | (k, v) :: rest, fields, hkeys, h => by
    have hnew : k ∉ Keyed.keys fields := by
      rw [Keyed.keys, List.map_append, List.nodup_append] at hkeys
      intro hk
      exact hkeys.2.2 k hk k (by simp) rfl
    rw [fieldsToJson, ofMembers?_field (isField_of_head? h.1), ofJson?_toJson v h.2.1,
      Option.bind_some, Keyed.put_of_not_mem v hnew,
      ofMembers?_fieldsToJson rest (fields ++ [(k, v)]) (by simpa using hkeys) h.2.2]
    simp

end

/-! ## Documents -/

/-- What the text of a document is read as. -/
theorem documentOfText?_documentText (d : Document) :
    documentOfText? (documentText d) =
      if (toJson (.document d)).depth ≤ Json.maxDepth then
        match ofMembers? [] (Json.rereadMembers (fieldsToJson d)) with
        | some (.document fields) => some fields
        | _ => none
      else none := by
  unfold documentOfText? documentText jsonText
  rw [Json.ofText?_text (fits_toJson (.document d))]
  by_cases hd : (toJson (.document d)).depth ≤ Json.maxDepth
  · rw [if_pos hd, if_pos hd]
    rfl
  · rw [if_neg hd, if_neg hd]

/-- A reloadable document comes back from its text, unless it nests too deep. -/
theorem documentOfText?_of_reloadable {d : Document} (h : Reloadable (.document d))
    (hd : (toJson (.document d)).depth ≤ Json.maxDepth) :
    documentOfText? (documentText d) = some d := by
  rw [documentOfText?_documentText, if_pos hd, rereadMembers_fieldsToJson d h.2,
    ofMembers?_fieldsToJson d [] h.1 h.2]
  rfl

end Value
end DocQuery
