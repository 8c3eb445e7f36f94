import DocQuery.Proofs.CollectionLines

/-
  Which documents can be read again from their text. Not all can: a name of the format among the
  fields makes the reader look for what it announces, and a text that nests too deep is refused. The
  condition is exact, and it follows the shape of the value.
-/

namespace DocQuery

/-! ## Bodies hold no doubles -/

namespace Json

theorem keys_rereadMembers (members : List (String × Json)) :
    Keyed.keys (rereadMembers members) = Keyed.keys members := by
  induction members with
  | nil => rfl
  | cons e members ih =>
    obtain ⟨k, j⟩ := e
    show k :: Keyed.keys (rereadMembers members) = k :: Keyed.keys members
    rw [ih]

theorem length_rereadItems (items : List Json) : (rereadItems items).length = items.length := by
  induction items with
  | nil => rfl
  | cons j items ih => rw [rereadItems, List.length_cons, List.length_cons, ih]

theorem length_rereadMembers (members : List (String × Json)) :
    (rereadMembers members).length = members.length := by
  have hkeys := congrArg List.length (keys_rereadMembers members)
  unfold Keyed.keys at hkeys
  rwa [List.length_map, List.length_map] at hkeys

theorem rereadItems_eq_map (items : List Json) : rereadItems items = items.map reread := by
  induction items with
  | nil => rfl
  | cons j items ih => rw [rereadItems, List.map_cons, ih]

theorem get?_rereadMembers (members : List (String × Json)) (name : String) :
    Keyed.get? (rereadMembers members) name = (Keyed.get? members name).map reread := by
  induction members with
  | nil => rfl
  | cons e members ih =>
    obtain ⟨k, j⟩ := e
    unfold rereadMembers Keyed.get?
    split
    · rfl
    · exact ih

end Json

namespace ExtendedJson
open Json (reread)

theorem body?_reread (names : List String) (j : Json) :
    body? names (reread j) = (body? names j).map (List.map reread) := by
  cases j with
  | object members =>
    have hmap : ∀ names : List String,
        names.mapM (fun name => Keyed.get? (Json.rereadMembers members) name) =
          (names.mapM fun name => Keyed.get? members name).map (List.map reread) := by
      intro names
      induction names with
      | nil => rfl
      | cons name names ih =>
        rw [List.mapM_cons, List.mapM_cons, ih, Json.get?_rereadMembers]
        cases Keyed.get? members name with
        | none => rfl
        | some j => cases names.mapM fun name => Keyed.get? members name <;> rfl
    unfold reread body?
    dsimp only
    rw [Json.length_rereadMembers, hmap]
    split <;> rfl
  | array items =>
    unfold reread body?
    dsimp only
    rw [Json.length_rereadItems, Json.rereadItems_eq_map]
    split <;> rfl
  | _ => rfl

/-- A body of two names is read as before if its members are. -/
theorem pair?_reread {read : Json → Json → Option Value}
    (hread : ∀ a b, read (reread a) (reread b) = read a b) (first second : String) (j : Json) :
    pair? first second read (reread j) = pair? first second read j := by
  unfold pair?
  rw [body?_reread]
  rcases body? [first, second] j with _ | ⟨_ | ⟨a, _ | ⟨b, _ | ⟨c, l⟩⟩⟩⟩
  case some.cons.cons.nil => exact hread a b
  all_goals rfl

/-- A point in time written as a long integer. -/
def longDate? (j : Json) : Option Value :=
  match body? ["$numberLong"] j with
  | some [.string s] => (integer? s).bind fun n => (int64? n).map Value.dateTime
  | _ => none

theorem longDate?_reread (j : Json) : longDate? (reread j) = longDate? j := by
  unfold longDate?
  rw [body?_reread]
  rcases body? ["$numberLong"] j with _ | ⟨_ | ⟨a, _ | ⟨b, l⟩⟩⟩
  case some.cons.nil => cases a <;> rfl
  case some.cons.cons => cases a <;> rfl
  all_goals rfl

theorem dateTime?_reread (j : Json) : dateTime? (reread j) = dateTime? j := by
  cases j with
  | array items => exact longDate?_reread (.array items)
  | object members => exact longDate?_reread (.object members)
  | _ => rfl

/-- A body is accepted as it was before it was written. -/
theorem scalar?_reread (key : String) (j : Json) : scalar? key (reread j) = scalar? key j := by
  -- texts and numbers, which the bodies are made of, are written as they are
  have hbinary : binary? (reread j) = binary? j :=
    pair?_reread (by intro a b; cases a <;> cases b <;> rfl) _ _ j
  have htimestamp : timestamp? (reread j) = timestamp? j :=
    pair?_reread (by intro a b; cases a <;> cases b <;> rfl) _ _ j
  have hregex : regex? (reread j) = regex? j :=
    pair?_reread (by intro a b; cases a <;> cases b <;> rfl) _ _ j
  unfold scalar?
  rw [hbinary, htimestamp, hregex, dateTime?_reread]
  cases j <;> rfl

end ExtendedJson
namespace Value

/-! ## What the reader accepts -/

variable {fields : List (String × Value)} {members rest : List (String × Json)} {key : String}
  {j : Json}

/-- Code stands alone or with its scope behind it. -/
theorem isSome_ofMembers?_code :
    (ofMembers? fields (("$code", j) :: rest)).isSome = true ↔ (∃ text, j = .string text) ∧
      (rest = [] ∨ ∃ members d, rest = [("$scope", .object members)] ∧
        ofMembers? [] members = some (.document d)) := by
  rw [ofMembers?.eq_def]
  dsimp only
  rw [if_pos rfl]
  split
  · simp
  · next text members =>
    split
    · next scope he => simp [he]
    · next hne => simpa using hne
  · next halone hscope =>
    simp only [Option.isSome_none, Bool.false_eq_true, false_iff]
    rintro ⟨⟨text, rfl⟩, rfl | ⟨members, d, rfl, -⟩⟩
    · exact halone text rfl rfl
    · exact hscope text members rfl rfl

/-- A scope stands in front of its code. -/
theorem isSome_ofMembers?_scope :
    (ofMembers? fields (("$scope", j) :: rest)).isSome = true ↔
      (∃ members d, j = .object members ∧ ofMembers? [] members = some (.document d)) ∧
        ∃ text, rest = [("$code", .string text)] := by
  rw [ofMembers?.eq_def]
  dsimp only
  rw [if_neg (by decide), if_pos rfl]
  split
  · next members text =>
    split
    · next scope he => simp [he]
    · next hne => simpa using hne
  · next hpair =>
    simp only [Option.isSome_none, Bool.false_eq_true, false_iff]
    rintro ⟨⟨members, d, rfl, -⟩, text, rfl⟩
    exact hpair members text rfl rfl

/-- A reserved name stands last, with a body that is accepted. -/
theorem isSome_ofMembers?_reserved (hkey : key ∈ ExtendedJson.reservedNames) :
    (ofMembers? fields ((key, j) :: rest)).isSome = true ↔
      (∃ v, ExtendedJson.scalar? key j = some (some v)) ∧ rest = [] := by
  have hcode : key ≠ "$code" := by
    rintro rfl
    exact absurd hkey (by decide)
  have hscope : key ≠ "$scope" := by
    rintro rfl
    exact absurd hkey (by decide)
  cases hs : ExtendedJson.scalar? key j with
  | none => exact absurd hkey ((ExtendedJson.scalar?_eq_none_iff key j).mp hs)
  | some r =>
    rw [ofMembers?_scalar hcode hscope hs]
    cases rest with
    | nil => simp [Option.isSome_iff_exists]
    | cons e rest => simp

/-- Any other name is a field. -/
theorem isSome_ofMembers?_field (hkey : IsField key) :
    (ofMembers? fields ((key, j) :: rest)).isSome = true ↔
      ∃ v, ofJson? j = some v ∧ (ofMembers? (Keyed.put fields key v) rest).isSome = true := by
  rw [ofMembers?_field hkey]
  cases ofJson? j <;> simp

theorem dateTime?_ne_document (j : Json) (d : Document) :
    ExtendedJson.dateTime? j ≠ some (.document d) := by
  intro h
  unfold ExtendedJson.dateTime? at h
  split at h
  · simp [Option.bind_eq_some_iff] at h
  · simp at h
  · split at h
    · simp [Option.bind_eq_some_iff] at h
    · cases h

/-- No body of a reserved name is read as a document. -/
theorem scalar?_ne_document (key : String) (j : Json) (d : Document) :
    ExtendedJson.scalar? key j ≠ some (some (.document d)) := by
  intro h
  unfold ExtendedJson.scalar? at h
  split at h
  case h_10 => exact dateTime?_ne_document j d (Option.some.inj h)
  all_goals
    simp only [ExtendedJson.binary?, ExtendedJson.timestamp?, ExtendedJson.regex?,
      ExtendedJson.pair?, Option.some.injEq, reduceCtorEq] at h
  all_goals
    repeat' split at h
  all_goals
    simp [Option.bind_eq_some_iff, ExtendedJson.int32Value?] at h

theorem ofMembers?_ne_document (hkey : ¬ IsField key) (d : Document) :
    ofMembers? fields ((key, j) :: rest) ≠ some (.document d) := by
  intro h
  rw [ofMembers?.eq_def] at h
  dsimp only at h
  split at h
  · split at h
    · cases h
    · split at h <;> cases h
    · cases h
  · split at h
    · split at h
      · split at h <;> cases h
      · cases h
    · next hcode hscope =>
      cases hs : ExtendedJson.scalar? key j with
      | none => exact hkey ⟨hcode, hscope, (ExtendedJson.scalar?_eq_none_iff key j).mp hs⟩
      | some r =>
        rw [hs] at h
        dsimp only at h
        split at h
        · rw [h] at hs
          exact scalar?_ne_document key j d hs
        · cases h

/-- An object is read as a document when all its names are fields. -/
theorem exists_document_iff : (∃ d, ofMembers? fields members = some (.document d)) ↔
    (∀ k ∈ Keyed.keys members, IsField k) ∧ (ofMembers? fields members).isSome = true := by
  induction members generalizing fields with
  | nil => simp [ofMembers?, Keyed.keys]
  | cons e members ih =>
    obtain ⟨key, j⟩ := e
    by_cases hkey : IsField key
    · rw [ofMembers?_field hkey]
      simp only [Keyed.keys, List.map_cons, List.forall_mem_cons, hkey, true_and]
      cases ofJson? j with
      | none => simp
      | some v => exact ih
    · constructor
      · rintro ⟨d, hd⟩
        exact absurd hd (ofMembers?_ne_document hkey d)
      · rintro ⟨hkeys, -⟩
        exact absurd (hkeys key List.mem_cons_self) hkey

/-! ## Values that can be read again -/

/-- Whether all names of a document are fields. -/
def AllFields (fields : List (String × Value)) : Prop := ∀ k ∈ Keyed.keys fields, IsField k

/-- Whether a value is a body that a reserved name accepts. -/
def Accepted (key : String) (v : Value) : Prop :=
  ∃ r, ExtendedJson.scalar? key v.toJson = some (some r)

mutual

/-- Whether the text of a value can be read, as whatever value. -/
def Readable : Value → Prop
  | array items => ReadableItems items
  | document fields => ReadableFields fields
  | regex pattern options => '\x00' ∉ pattern.toList ∧ '\x00' ∉ options.toList
  | scopedCode _ scope => AllFields scope ∧ ReadableFields scope
  | _ => True

def ReadableItems : List Value → Prop
  | [] => True
  | v :: rest => Readable v ∧ ReadableItems rest

/-- Names are fields up to the first that is not; what that one announces has to follow. -/
def ReadableFields : List (String × Value) → Prop
  | [] => True
  | (k, v) :: rest =>
    if k = "$code" then (∃ text, v = string text) ∧ ReadableBehindCode rest
    else if k = "$scope" then ReadableScope v ∧ ∃ text, rest = [("$code", string text)]
    else if k ∈ ExtendedJson.reservedNames then Accepted k v ∧ rest = []
    else Readable v ∧ ReadableFields rest

/-- Behind code stands nothing, or its scope. -/
def ReadableBehindCode : List (String × Value) → Prop
  | [] => True
  | [(k, v)] => k = "$scope" ∧ ReadableScope v
  | _ => False

/-- A scope is a document that is read as one. -/
def ReadableScope : Value → Prop
  | document fields => AllFields fields ∧ ReadableFields fields
  | _ => False

end

theorem reread_toJson_eq_string {v : Value} {text : String} :
    Json.reread v.toJson = .string text ↔ v = .string text := by
  cases v with
  | string s => simp [toJson, Json.reread]
  | double x => unfold toJson; split <;> simp [Json.reread]
  | binary subtype bytes => unfold toJson; split <;> simp [Json.reread]
  | _ => simp [toJson, Json.reread]

/-- The members of a document, as they are read. -/
abbrev rereadFields (fields : List (String × Value)) : List (String × Json) :=
  Json.rereadMembers (fieldsToJson fields)

theorem keys_rereadFields (fields : List (String × Value)) :
    Keyed.keys (rereadFields fields) = Keyed.keys fields := by
  unfold rereadFields
  rw [Json.keys_rereadMembers]
  induction fields with
  | nil => rfl
  | cons e fields ih =>
    obtain ⟨k, v⟩ := e
    show k :: Keyed.keys (fieldsToJson fields) = k :: Keyed.keys fields
    rw [ih]

theorem exists_document_rereadFields (acc fields : List (String × Value)) :
    (∃ d, ofMembers? acc (rereadFields fields) = some (.document d)) ↔
      AllFields fields ∧ (ofMembers? acc (rereadFields fields)).isSome = true := by
  rw [exists_document_iff, keys_rereadFields]
  rfl

theorem ofJson?_int_isSome {n : Int} (hlow : -9223372036854775808 ≤ n)
    (hhigh : n ≤ 9223372036854775807) : (ofJson? (.int n)).isSome = true := by
  have hlong : ExtendedJson.int64? n = some (Int64.ofInt n) := by
    unfold ExtendedJson.int64?
    rw [if_pos (by simp [hlow, hhigh])]
  unfold ofJson? ExtendedJson.integerValue?
  rw [hlong]
  split_ifs <;> rfl

/-- An object with a reserved name alone is read when its body is accepted. -/
theorem isSome_ofJson?_single {key : String} (hkey : key ∈ ExtendedJson.reservedNames) (j : Json) :
    (ofJson? (Json.reread (.object [(key, j)]))).isSome = true ↔
      ∃ v, ExtendedJson.scalar? key j = some (some v) := by
  rw [Json.reread, ofJson?, Json.rereadMembers, Json.rereadMembers,
    isSome_ofMembers?_reserved hkey, ExtendedJson.scalar?_reread]
  simp

theorem scalar?_regularExpression (pattern options : String) :
    (∃ v, ExtendedJson.scalar? "$regularExpression"
      (.object [("pattern", .string pattern), ("options", .string options)]) = some (some v)) ↔
      '\x00' ∉ pattern.toList ∧ '\x00' ∉ options.toList := by
  have hbody : ExtendedJson.body? ["pattern", "options"]
      (.object [("pattern", .string pattern), ("options", .string options)]) =
      some [.string pattern, .string options] := rfl
  show (∃ v, some (ExtendedJson.regex? _) = some (some v)) ↔ _
  rw [ExtendedJson.regex?, ExtendedJson.pair?, hbody]
  simp

theorem bytes_isSome (bytes : List UInt8) :
    (itemsOfJson? (Json.rereadItems (bytes.map fun b => .int b.toNat))).isSome = true := by
  induction bytes with
  | nil => rfl
  | cons b bytes ih =>
    have hb := b.toNat_lt
    have hint := ofJson?_int_isSome (n := (b.toNat : Int)) (by omega) (by omega)
    have hkept : Json.reread (.int b.toNat) = .int b.toNat := rfl
    rw [List.map_cons, Json.rereadItems, itemsOfJson?, hkept]
    obtain ⟨v, hv⟩ := Option.isSome_iff_exists.mp hint
    obtain ⟨vs, hvs⟩ := Option.isSome_iff_exists.mp ih
    rw [hv, hvs]
    rfl

theorem not_document_of_head {key : String} (hkey : ¬ IsField key) (j : Json)
    (rest : List (String × Json)) :
    ¬ ∃ members d, Json.reread (.object ((key, j) :: rest)) = .object members ∧
      ofMembers? [] members = some (.document d) := by
  rintro ⟨members, d, hmembers, hd⟩
  cases hmembers
  exact ofMembers?_ne_document hkey d hd

theorem not_isField_of_reserved {key : String} (hkey : key ∈ ExtendedJson.reservedNames) :
    ¬ IsField key := by
  intro h
  exact h.reserved hkey

/-- Only documents are read as documents. -/
theorem not_document {v : Value} (hv : ∀ fields, v ≠ .document fields) :
    ¬ ∃ members d, Json.reread v.toJson = .object members ∧
      ofMembers? [] members = some (.document d) := by
  have hcode : ¬ IsField "$code" := by
    intro h
    exact h.code rfl
  cases v with
  | document fields => exact absurd rfl (hv fields)
  | objectId id => exact not_document_of_head (not_isField_of_reserved (by decide)) _ _
  | dateTime ms => exact not_document_of_head (not_isField_of_reserved (by decide)) _ _
  | timestamp t i => exact not_document_of_head (not_isField_of_reserved (by decide)) _ _
  | regex pattern options => exact not_document_of_head (not_isField_of_reserved (by decide)) _ _
  | symbol s => exact not_document_of_head (not_isField_of_reserved (by decide)) _ _
  | code text => exact not_document_of_head hcode _ _
  | scopedCode text scope => exact not_document_of_head hcode _ _
  | undefined => exact not_document_of_head (not_isField_of_reserved (by decide)) _ _
  | minKey => exact not_document_of_head (not_isField_of_reserved (by decide)) _ _
  | maxKey => exact not_document_of_head (not_isField_of_reserved (by decide)) _ _
  | binary subtype bytes =>
    unfold toJson
    split
    · rintro ⟨members, d, hmembers, -⟩
      cases hmembers
    · exact not_document_of_head (not_isField_of_reserved (by decide)) _ _
  | double x =>
    unfold toJson
    split
    · rintro ⟨members, d, hmembers, -⟩
      cases hmembers
    · rintro ⟨members, d, hmembers, -⟩
      cases hmembers
  | _ =>
    rintro ⟨members, d, hmembers, -⟩
    cases hmembers

mutual

theorem isSome_ofJson?_reread : (v : Value) →
    ((ofJson? (Json.reread v.toJson)).isSome = true ↔ v.Readable)
  | .null => by simp [toJson, Json.reread, ofJson?, Readable]
  | .bool _ => by simp [toJson, Json.reread, ofJson?, Readable]
  | .int32 n => by
    have hlow := n.le_toInt
    have hhigh := n.toInt_lt
    simp [toJson, Json.reread, Readable, ofJson?_int_isSome (n := n.toInt) (by omega) (by omega)]
  | .int64 n => by
    have hlow := n.le_toInt
    have hhigh := n.toInt_lt
    simp [toJson, Json.reread, Readable, ofJson?_int_isSome (n := n.toInt) (by omega) (by omega)]
  | .double x => by
    unfold toJson
    split <;> simp [Json.reread, ofJson?, Readable]
  | .string _ => by simp [toJson, Json.reread, ofJson?, Readable]
  | .array items => by
    rw [toJson, Json.reread, ofJson?, Option.isSome_map, isSome_itemsOfJson?_reread items, Readable]
  | .document fields => by
    rw [toJson, Json.reread, ofJson?, isSome_ofMembers?_reread fields [], Readable]
  | .objectId id => by
    rw [toJson, isSome_ofJson?_single (by decide)]
    exact iff_of_true ⟨_, scalar?_oid id⟩ trivial
  | .dateTime ms => by
    rw [toJson, isSome_ofJson?_single (by decide)]
    exact iff_of_true ⟨_, scalar?_date ms⟩ trivial
  | .timestamp t i => by
    rw [toJson, isSome_ofJson?_single (by decide)]
    exact iff_of_true ⟨_, scalar?_timestamp t i⟩ trivial
  | .binary subtype bytes => by
    unfold toJson
    split
    · rw [Json.reread, ofJson?, Option.isSome_map]
      exact iff_of_true (bytes_isSome bytes) trivial
    · rw [isSome_ofJson?_single (by decide)]
      exact iff_of_true ⟨_, scalar?_binary subtype bytes⟩ trivial
  | .regex pattern options => by
    rw [toJson, isSome_ofJson?_single (by decide), scalar?_regularExpression]
    rfl
  | .symbol s => by
    rw [toJson, isSome_ofJson?_single (by decide)]
    exact iff_of_true ⟨.symbol s, rfl⟩ trivial
  | .code text => by
    show (ofMembers? [] [("$code", .string text)]).isSome = true ↔ _
    rw [isSome_ofMembers?_code]
    exact iff_of_true ⟨⟨text, rfl⟩, .inl rfl⟩ trivial
  | .scopedCode text scope => by
    show (ofMembers? [] [("$code", .string text), ("$scope", .object (rereadFields scope))]).isSome
      = true ↔ AllFields scope ∧ ReadableFields scope
    rw [isSome_ofMembers?_code, ← isSome_ofMembers?_reread scope [],
      ← exists_document_rereadFields]
    simp
  | .undefined => by
    rw [toJson, isSome_ofJson?_single (by decide)]
    exact iff_of_true ⟨.undefined, rfl⟩ trivial
  | .minKey => by
    rw [toJson, isSome_ofJson?_single (by decide)]
    exact iff_of_true ⟨.minKey, rfl⟩ trivial
  | .maxKey => by
    rw [toJson, isSome_ofJson?_single (by decide)]
    exact iff_of_true ⟨.maxKey, rfl⟩ trivial

theorem isSome_itemsOfJson?_reread : (items : List Value) →
    ((itemsOfJson? (Json.rereadItems (itemsToJson items))).isSome = true ↔ ReadableItems items)
  | [] => by simp [itemsToJson, Json.rereadItems, itemsOfJson?, ReadableItems]
  | v :: rest => by
    rw [itemsToJson, Json.rereadItems, itemsOfJson?, ReadableItems, ← isSome_ofJson?_reread v,
      ← isSome_itemsOfJson?_reread rest]
    cases ofJson? (Json.reread v.toJson) with
    | none => simp
    | some w => cases itemsOfJson? (Json.rereadItems (itemsToJson rest)) <;> simp

theorem isSome_ofMembers?_reread : (fields : List (String × Value)) →
    (acc : List (String × Value)) →
    ((ofMembers? acc (rereadFields fields)).isSome = true ↔ ReadableFields fields)
  | [], acc => by
    simp [rereadFields, fieldsToJson, Json.rereadMembers, ofMembers?, ReadableFields]
  | (k, v) :: rest, acc => by
    show (ofMembers? acc ((k, Json.reread v.toJson) :: rereadFields rest)).isSome = true ↔ _
    rw [ReadableFields]
    split_ifs with hcode hscope hreserved
    · subst hcode
      rw [isSome_ofMembers?_code, readableBehindCode_iff rest]
      simp only [reread_toJson_eq_string]
    · subst hscope
      have hcode : (∃ text, rereadFields rest = [("$code", .string text)]) ↔
          ∃ text, rest = [("$code", .string text)] := by
        match rest with
        | [] => simp [rereadFields, fieldsToJson, Json.rereadMembers]
        | [(k, w)] =>
          simp [rereadFields, fieldsToJson, Json.rereadMembers, reread_toJson_eq_string]
        | _ :: _ :: _ => simp [rereadFields, fieldsToJson, Json.rereadMembers]
      rw [isSome_ofMembers?_scope, readableScope_iff v, hcode]
    · have hnil : rereadFields rest = [] ↔ rest = [] := by
        cases rest <;> simp [rereadFields, fieldsToJson, Json.rereadMembers]
      rw [isSome_ofMembers?_reserved hreserved, ExtendedJson.scalar?_reread, hnil]
      rfl
    · rw [isSome_ofMembers?_field ⟨hcode, hscope, hreserved⟩, ← isSome_ofJson?_reread v]
      cases ofJson? (Json.reread v.toJson) with
      | none => simp
      | some w => simp [isSome_ofMembers?_reread rest (Keyed.put acc k w)]

theorem readableBehindCode_iff : (rest : List (String × Value)) →
    (rereadFields rest = [] ∨ ∃ members d, rereadFields rest = [("$scope", .object members)] ∧
      ofMembers? [] members = some (.document d)) ↔ ReadableBehindCode rest
  | [] => by simp [rereadFields, fieldsToJson, Json.rereadMembers, ReadableBehindCode]
  | [(k, v)] => by
    rw [ReadableBehindCode, ← readableScope_iff v]
    constructor
    · rintro (hnil | ⟨members, d, hsingle, hd⟩)
      · cases hnil
      · obtain ⟨hk, hv⟩ := Prod.mk.inj (List.cons.inj hsingle).1
        exact ⟨hk, members, d, hv, hd⟩
    · rintro ⟨rfl, members, d, hv, hd⟩
      refine .inr ⟨members, d, ?_, hd⟩
      rw [← hv]
      rfl
  | _ :: _ :: _ => by
    simp [rereadFields, fieldsToJson, Json.rereadMembers, ReadableBehindCode]

theorem readableScope_iff (v : Value) :
    (∃ members d, Json.reread v.toJson = .object members ∧
      ofMembers? [] members = some (.document d)) ↔ ReadableScope v := by
  cases v with
  | document fields =>
    rw [ReadableScope, ← isSome_ofMembers?_reread fields [], ← exists_document_rereadFields]
    show (∃ members d, Json.object (rereadFields fields) = .object members ∧ _) ↔ _
    simp
  | _ => exact iff_of_false (not_document (by simp)) id

end

end Value

namespace CollectionFile

/-- A document whose line can be read: its text is not nested too deep, its own names are fields,
and its values can be read. -/
structure ReadableLine (d : Document) : Prop where
  depth : (Value.toJson (.document d)).depth ≤ Json.maxDepth
  names : Value.AllFields d
  values : Value.ReadableFields d

/-- Exactly the lines of these documents can be read. -/
theorem rereadDocument_isSome_iff (d : Document) :
    (rereadDocument d).isSome = true ↔ ReadableLine d := by
  have hdocument : (∃ fields, Value.ofMembers? [] (Value.rereadFields d) = some (.document fields)) ↔
      Value.AllFields d ∧ Value.ReadableFields d := by
    rw [Value.exists_document_rereadFields, Value.isSome_ofMembers?_reread]
  unfold rereadDocument
  rw [Value.documentOfText?_documentText]
  constructor
  · intro h
    split at h
    · next hdepth =>
      split at h
      · next fields hfields =>
        obtain ⟨hnames, hvalues⟩ := hdocument.mp ⟨fields, hfields⟩
        exact ⟨hdepth, hnames, hvalues⟩
      · cases h
    · cases h
  · rintro ⟨hdepth, hnames, hvalues⟩
    obtain ⟨fields, hfields⟩ := hdocument.mpr ⟨hnames, hvalues⟩
    rw [if_pos hdepth, hfields]
    rfl

end CollectionFile
end DocQuery
