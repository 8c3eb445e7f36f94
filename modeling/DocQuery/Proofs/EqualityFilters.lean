import DocQuery.Proofs.Clauses
import DocQuery.Proofs.FilterLanguage

/-
  Equality with a value, and its negation. The negation stands under an operator, so its value is
  taken as it is; the equality is the value itself under the field's name, and a value written like
  operators is read as operators there. `equality_and_negation`: for any other value each document
  satisfies one of the two, and for such a value the equality is refused or there is a document
  that satisfies both or neither.

  That document comes from a bound on what operators can tell apart: a value nested as deeply as the
  operators is equal to none of their operands and ordered to none, so the operators cannot tell
  their own document from an array around it. The negation can.
-/

namespace DocQuery

/-! ## How deeply values are nested -/

namespace Value

mutual
/-- How many documents and arrays lie around the innermost part of a value. -/
def depth : Value → Nat
  | array items => depthItems items + 1
  | document fields => depthFields fields + 1
  | scopedCode _ scope => depthFields scope + 1
  | _ => 0

def depthItems : List Value → Nat
  | [] => 0
  | v :: rest => max (depth v) (depthItems rest)

def depthFields : List (String × Value) → Nat
  | [] => 0
  | (_, v) :: rest => max (depth v) (depthFields rest)
end

theorem depth_le_of_get? {fields : List (String × Value)} {name : String} {v : Value}
    (h : Keyed.get? fields name = some v) : v.depth ≤ depthFields fields := by
  induction fields with
  | nil => cases h
  | cons e rest ih =>
    obtain ⟨k, w⟩ := e
    rw [depthFields]
    by_cases hk : k = name
    · subst hk
      rw [Keyed.get?_cons_self] at h
      cases h
      exact Nat.le_max_left _ _
    · rw [Keyed.get?_cons_other hk] at h
      exact Nat.le_trans (ih h) (Nat.le_max_right _ _)

theorem depth_le_of_mem {items : List Value} {v : Value} (h : v ∈ items) :
    v.depth ≤ depthItems items := by
  induction items with
  | nil => cases h
  | cons w rest ih =>
    rw [depthItems]
    rcases List.mem_cons.mp h with rfl | h
    · exact Nat.le_max_left _ _
    · exact Nat.le_trans (ih h) (Nat.le_max_right _ _)

mutual

theorem depth_le_of_same : (v w : Value) → same v w = true → v.depth ≤ w.depth
  | array xs, w, h => by
    cases w with
    | array ys =>
      rw [same] at h
      rw [depth, depth]
      exact Nat.succ_le_succ (depthItems_le_of_same xs ys h)
    | _ => simp [same] at h
  | document xs, w, h => by
    cases w with
    | document ys =>
      rw [same, Bool.and_eq_true] at h
      rw [depth, depth]
      exact Nat.succ_le_succ (depthFields_le_of_same xs ys h.2)
    | _ => simp [same] at h
  | scopedCode _ xs, w, h => by
    cases w with
    | scopedCode _ ys =>
      rw [same, Bool.and_eq_true, Bool.and_eq_true] at h
      rw [depth, depth]
      exact Nat.succ_le_succ (depthFields_le_of_same xs ys h.2.2)
    | _ => simp [same] at h
  | null, _, _ | bool _, _, _ | int32 _, _, _ | int64 _, _, _ | double _, _, _ | string _, _, _
  | objectId _, _, _ | dateTime _, _, _ | timestamp _ _, _, _ | binary _ _, _, _
  | regex _ _, _, _ | symbol _, _, _ | code _, _, _ | undefined, _, _ | minKey, _, _
  | maxKey, _, _ => by
    rw [depth]
    exact Nat.zero_le _
    all_goals nofun

theorem depthItems_le_of_same : (xs ys : List Value) → sameItems xs ys = true →
    depthItems xs ≤ depthItems ys
  | [], _, _ => Nat.zero_le _
  | x :: xs, ys, h => by
    cases ys with
    | nil => simp [sameItems] at h
    | cons y ys =>
      rw [sameItems, Bool.and_eq_true] at h
      have hhead := depth_le_of_same x y h.1
      have hrest := depthItems_le_of_same xs ys h.2
      rw [depthItems, depthItems]
      omega

theorem depthFields_le_of_same : (xs ys : List (String × Value)) → sameFields xs ys = true →
    depthFields xs ≤ depthFields ys
  | [], _, _ => Nat.zero_le _
  | (k, v) :: rest, ys, h => by
    rw [sameFields, Bool.and_eq_true] at h
    obtain ⟨hhead, hrest⟩ := h
    have hrest := depthFields_le_of_same rest ys hrest
    split at hhead
    · next w hw =>
      have hhead := depth_le_of_same v w hhead
      have hmem := depth_le_of_get? hw
      rw [depthFields]
      omega
    · cases hhead

end

/-- Alike values are nested alike, so a value is alike to nothing of a lesser depth. -/
theorem depth_le_of_alike {v w : Value} (h : v.alike w = true) : v.depth ≤ w.depth := by
  unfold alike at h
  split at h
  all_goals first | exact depth_le_of_same _ _ h | (simp [depth])

/-- Documents and arrays are in no order. -/
theorem compare?_eq_none {v : Value} (h : 0 < v.depth) (w : Value) : v.compare? w = none := by
  unfold compare?
  cases v with
  | array | document | scopedCode => simp [toInt?, toDouble?]
  | _ => simp [depth] at h

end Value

/-! ## A document with one path -/

namespace FieldPath

/-- A document with nothing in it but a value under a path. -/
def only : List String → Value → Document
  | [], _ => []
  | [name], v => [(name, v)]
  | name :: next :: rest, v => [(name, .document (only (next :: rest) v))]

theorem lookup_only {names : List String} (h : names ≠ []) (v : Value) :
    lookup (only names v) names = some v := by
  induction names with
  | nil => exact absurd rfl h
  | cons name rest ih =>
    cases rest with
    | nil => simp [only, lookup]
    | cons next rest =>
      rw [only, lookup, Keyed.get?_cons_self]
      · exact ih (List.cons_ne_nil _ _)
      · exact List.cons_ne_nil _ _

theorem find?_only {path : String} (h : (segments path).length ≤ maxSegments) (v : Value) :
    find? (only (segments path) v) path = some v := by
  unfold find?
  dsimp only
  rw [if_pos h, lookup_only (segments_ne_nil path)]

theorem wellFormed_only {v : Value} (hv : v.WellFormed) (names : List String) :
    (Value.document (only names v)).WellFormed := by
  induction names with
  | nil => simp [only, Value.WellFormed, Value.WellFormedFields, Keyed.keys]
  | cons name rest ih =>
    cases rest with
    | nil => simpa [only, Value.WellFormed, Value.WellFormedFields, Keyed.keys] using hv
    | cons next rest =>
      rw [only, Value.WellFormed, Value.WellFormedFields]
      exact ⟨by simp [Keyed.keys], ih, by simp [Value.WellFormedFields]⟩

end FieldPath

/-! ## Operators on values nested more deeply -/

namespace FilterLanguage

/-- A value nested more deeply than the operand is unequal to it, and in no order. -/
theorem holds_of_deep {v operand : Value} (h : operand.depth < v.depth) (op : FilterOp) :
    op.holds (some v) operand = decide (op = .ne) := by
  have halike : v.alike operand = false := by
    rw [Bool.eq_false_iff]
    intro halike
    have := Value.depth_le_of_alike halike
    omega
  have hcompare : v.compare? operand = none := Value.compare?_eq_none (by omega) operand
  cases op with
  | eq | ne => simp [FilterOp.holds, halike]
  | gt | gte | lt | lte => simp [FilterOp.holds, hcompare]

theorem leafHolds_of_deep {v w operand : Value} (hv : operand.depth < v.depth)
    (hw : operand.depth < w.depth) (op : String) :
    leafHolds (some v) operand op = leafHolds (some w) operand op := by
  unfold leafHolds
  split
  all_goals first | rfl | rw [holds_of_deep hv, holds_of_deep hw]

theorem isAmong_of_deep {v : Value} {items : List Value}
    (h : Value.depthItems items < v.depth) : Filter.isAmong (some v) items = false := by
  unfold Filter.isAmong
  induction items with
  | nil => rfl
  | cons x items ih =>
    rw [Value.depthItems] at h
    have hx : FilterOp.eq.holds (some v) x = false := holds_of_deep (by omega) .eq
    exact (congrArg₂ (· || ·) hx (ih (by omega)))

theorem setHolds_of_deep {v w : Value} {items : List Value}
    (hv : Value.depthItems items < v.depth) (hw : Value.depthItems items < w.depth) (op : String) :
    setHolds (some v) items op = setHolds (some w) items op := by
  unfold setHolds
  rw [isAmong_of_deep hv, isAmong_of_deep hw]

mutual

/-- Operators cannot tell two values apart that are both nested more deeply than their operands. -/
theorem operatorTruths_of_deep {v w : Value} : (ops : List (String × Value)) →
    Value.depthFields ops < v.depth → Value.depthFields ops < w.depth →
    operatorTruths (some v) ops = operatorTruths (some w) ops
  | [], _, _ => rfl
  | (op, operand) :: rest, hv, hw => by
    rw [Value.depthFields] at hv hw
    have hhead := operatorHolds_of_deep (v := v) (w := w) op operand (by omega) (by omega)
    have hrest := operatorTruths_of_deep (v := v) (w := w) rest (by omega) (by omega)
    rw [operatorTruths, operatorTruths, hhead, hrest]

theorem operatorHolds_of_deep {v w : Value} (op : String) : (operand : Value) →
    operand.depth < v.depth → operand.depth < w.depth →
    operatorHolds (some v) op operand = operatorHolds (some w) op operand
  | operand, hv, hw => by
    unfold operatorHolds
    split
    · exact leafHolds_of_deep hv hw op
    · cases operand with
      | array items =>
        rw [Value.depth] at hv hw
        exact setHolds_of_deep (by omega) (by omega) op
      | document inner =>
        rw [Value.depth] at hv hw
        have hinner := operatorTruths_of_deep (v := v) (w := w) inner (by omega) (by omega)
        dsimp only
        rw [hinner]
      | _ => rfl

end

theorem operatorDocumentHolds_of_deep {v w operators : Value} (hv : operators.depth ≤ v.depth)
    (hw : operators.depth ≤ w.depth) :
    operatorDocumentHolds (some v) operators = operatorDocumentHolds (some w) operators := by
  unfold operatorDocumentHolds
  cases operators with
  | document ops =>
    rw [Value.depth] at hv hw
    have hops := operatorTruths_of_deep (v := v) (w := w) ops (by omega) (by omega)
    dsimp only
    rw [hops]
  | _ => rfl

theorem fieldHolds_of_deep {operators v w : Value} (hreads : operators.readsAsOperators = true)
    (hv : operators.depth ≤ v.depth) (hw : operators.depth ≤ w.depth) :
    fieldHolds (some v) operators = fieldHolds (some w) operators := by
  unfold fieldHolds
  cases operators with
  | document ops =>
    have hops : Filter.isOperatorDocument ops = true := hreads
    dsimp only
    rw [if_pos hops, if_pos hops, operatorDocumentHolds_of_deep hv hw]
  | array items =>
    have hitems : isOperatorArray items = true := hreads
    dsimp only
    rw [if_pos hitems, if_pos hitems]
    rw [Value.depth] at hv hw
    have hitem : ∀ item ∈ items,
        operatorDocumentHolds (some v) item = operatorDocumentHolds (some w) item := by
      intro item hitem
      have hdepth := Value.depth_le_of_mem hitem
      exact operatorDocumentHolds_of_deep (by omega) (by omega)
    rw [Bool.eq_iff_iff, List.all_eq_true, List.all_eq_true]
    exact forall₂_congr fun item hmem => by rw [hitem item hmem]
  | _ => cases hreads

end FilterLanguage

/-! ## Equality and its negation -/

namespace Filter

/-- Whether both fragments are accepted and each document satisfies one of the two. -/
def Partitions (field : String) (v : Value) : Prop :=
  ∃ equal unequal, parse (Fragment.compare field (Comparison.equal.resolve false) v) = .ok equal ∧
    parse (Fragment.compare field (Comparison.equal.resolve true) v) = .ok unequal ∧
    ∀ d, equal.eval d = !unequal.eval d

/-- Whether the equality is refused, or some document satisfies both fragments or neither. -/
def Confuses (field : String) (v : Value) : Prop :=
  (∃ e, parse (Fragment.compare field (Comparison.equal.resolve false) v) = .error e) ∨
  ∃ equal unequal d, parse (Fragment.compare field (Comparison.equal.resolve false) v) = .ok equal ∧
    parse (Fragment.compare field (Comparison.equal.resolve true) v) = .ok unequal ∧
    (Value.document d).WellFormed ∧ equal.eval d = unequal.eval d

section Field

variable {field : String} (hfield : isOperatorKey field = false)
include hfield

/-- The negation is accepted with any value, and is inequality. -/
theorem parse_unequal (v : Value) :
    ∃ unequal, parse (Fragment.compare field (Comparison.equal.resolve true) v) = .ok unequal ∧
      ∀ d, unequal.eval d = Comparison.notEqual.holds (FieldPath.find? d field) v :=
  parseAt_compare (Nat.zero_le _) hfield .notEqual nofun

/-- The equality is whatever a parser makes of the value. -/
theorem parse_equal_reads (v : Value) :
    Reads (parse (Fragment.compare field (Comparison.equal.resolve false) v))
      (FilterLanguage.fieldFormed 0 v)
      fun d => FilterLanguage.fieldHolds (FieldPath.find? d field) v := by
  have hparse : parse (Fragment.compare field (Comparison.equal.resolve false) v) =
      parseField field 0 v := parseAt_single (Nat.zero_le _) hfield v
  rw [hparse]
  exact parseField_reads field 0 v

theorem partitions_of_plain {v : Value} (hplain : v.readsAsOperators = false) :
    Partitions field v := by
  obtain ⟨equal, hequal, heval⟩ :=
    parseAt_compare (Nat.zero_le maxNesting) hfield .equal (x := v) fun _ => hplain
  obtain ⟨unequal, hunequal, heval'⟩ := parse_unequal hfield v
  refine ⟨equal, unequal, hequal, hunequal, ?_⟩
  intro d
  rw [heval, heval']
  cases FieldPath.find? d field with
  | none => rfl
  | some w => exact (Bool.not_not _).symm

theorem confuses_of_operators {v : Value} (hreads : v.readsAsOperators = true)
    (hv : v.WellFormed) (hself : v.alike v = true)
    (hlength : (FieldPath.segments field).length ≤ FieldPath.maxSegments) :
    Confuses field v := by
  have hread := parse_equal_reads hfield v
  rcases hequal : parse (Fragment.compare field (Comparison.equal.resolve false) v) with e | equal
  · exact .inl ⟨e, hequal⟩
  rw [hequal] at hread
  have hholds : ∀ d, equal.eval d = FilterLanguage.fieldHolds (FieldPath.find? d field) v := hread.2
  obtain ⟨unequal, hunequal, heval⟩ := parse_unequal hfield v
  let holding (w : Value) : Document := FieldPath.only (FieldPath.segments field) w
  have hfound : ∀ w, FieldPath.find? (holding w) field = some w := FieldPath.find?_only hlength
  have hdepth : v.depth < (Value.array [v]).depth := by
    rw [Value.depth, Value.depthItems, Value.depthItems]
    omega
  -- equality cannot tell the value from an array around it, and inequality does
  have hsame : equal.eval (holding v) = equal.eval (holding (.array [v])) := by
    rw [hholds, hholds, hfound, hfound]
    exact FilterLanguage.fieldHolds_of_deep hreads (Nat.le_refl _) (Nat.le_of_lt hdepth)
  have hin : unequal.eval (holding v) = false := by
    rw [heval, hfound, Comparison.holds, hself]
    rfl
  have hout : unequal.eval (holding (.array [v])) = true := by
    have hunlike : (Value.array [v]).alike v = false := by
      rw [Bool.eq_false_iff]
      intro halike
      have := Value.depth_le_of_alike halike
      omega
    rw [heval, hfound, Comparison.holds, hunlike]
    rfl
  refine .inr ?_
  cases htruth : equal.eval (holding v) with
  | false =>
    exact ⟨equal, unequal, holding v, hequal, hunequal, FieldPath.wellFormed_only hv _,
      htruth.trans hin.symm⟩
  | true =>
    have hwell : (Value.array [v]).WellFormed := by
      rw [Value.WellFormed, Value.WellFormedItems, Value.WellFormedItems]
      exact ⟨hv, trivial⟩
    exact ⟨equal, unequal, holding (.array [v]), hequal, hunequal,
      FieldPath.wellFormed_only hwell _, hsame.symm.trans (htruth.trans hout.symm)⟩

/-- Equality and its negation. The negation is accepted and is inequality; the equality is accepted
just if its value is well formed as what is asked of a field, and then asks that. Each document
satisfies one of the two if the value does not read as operators. If it does, and is equal to
itself, the two do not part the documents. -/
theorem equality_and_negation (v : Value) :
    (∃ unequal, parse (Fragment.compare field (Comparison.equal.resolve true) v) = .ok unequal ∧
      ∀ d, unequal.eval d = Comparison.notEqual.holds (FieldPath.find? d field) v) ∧
    Reads (parse (Fragment.compare field (Comparison.equal.resolve false) v))
      (FilterLanguage.fieldFormed 0 v)
      (fun d => FilterLanguage.fieldHolds (FieldPath.find? d field) v) ∧
    (v.readsAsOperators = false → Partitions field v) ∧
    (v.readsAsOperators = true → v.WellFormed → v.alike v = true →
      (FieldPath.segments field).length ≤ FieldPath.maxSegments → Confuses field v) :=
  ⟨parse_unequal hfield v, parse_equal_reads hfield v, partitions_of_plain hfield,
    confuses_of_operators hfield⟩

end Field

/-- The number seven parts the documents by their stock, and a range for it does not. -/
theorem equality_and_negation_stock :
    Partitions "stock" (.int32 7) ∧ Confuses "stock" (.document [("$gt", .int32 3)]) := by
  have hstock : isOperatorKey "stock" = false := by decide
  obtain ⟨-, -, hseven, -⟩ := equality_and_negation hstock (.int32 7)
  obtain ⟨-, -, -, hrange⟩ := equality_and_negation hstock (.document [("$gt", .int32 3)])
  refine ⟨hseven (by decide), hrange (by decide) ?_ (by rfl) (by decide)⟩
  simp [Value.WellFormed, Value.WellFormedFields, Keyed.keys]

/-- A stock of five is in the range and unequal to the document that writes it, so not every value
parts the documents. -/
theorem not_equality_partitions :
    ¬ ∀ (field : String) (v : Value), isOperatorKey field = false → Partitions field v := by
  intro hparts
  have hstock : isOperatorKey "stock" = false := by decide
  obtain ⟨equal, unequal, hequal, hunequal, hall⟩ :=
    hparts "stock" (.document [("$gt", .int32 3)]) hstock
  have hrange : parse [("stock", .document [("$gt", .int32 3)])] =
      .ok (.compare "stock" .gt (.int32 3)) :=
    (parseAt_single (Nat.zero_le _) hstock _).trans
      (parseField_operator (Nat.zero_le _) rfl (by decide) (by decide) _)
  obtain ⟨other, hother, heval⟩ := parse_unequal hstock (.document [("$gt", .int32 3)])
  cases hequal.symm.trans hrange
  cases hunequal.symm.trans hother
  have hfive := hall [("stock", .int32 5)]
  rw [heval] at hfive
  exact absurd hfive (by decide)

end Filter
end DocQuery
