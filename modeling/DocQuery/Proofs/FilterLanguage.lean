import DocQuery.Filter.Parse

/-
  The language of filter documents. Which documents belong to it, and what one asks of a document,
  is said here by recursion on the filter document itself; the trees of the parser do not occur.
  `parse_language` says that the parser accepts just this language, and that what it makes of a
  filter document means the same.

  There are three kinds of things that can stand in one another: filter documents, arrays of them
  under a connective, and operator documents under a field. The functions below are as many, and so
  are the lemmas about the parser.
-/

namespace DocQuery

namespace FilterLanguage

open DocQuery.Filter (isOperatorKey isOperatorDocument isOperatorValue)

/-! ## What is well formed -/

/-- The operators that take any operand. -/
def anyOperand : List String := ["$eq", "$ne", "$gt", "$gte", "$lt", "$lte", "$exists"]

/-- The operators on a set of values. -/
def setOperators : List String := ["$in", "$nin"]

def connectives : List String := ["$and", "$or", "$nor"]

mutual

/-- Whether the operators of an operator document are well formed, so many levels deep. -/
def operatorsFormed : Nat → List (String × Value) → Bool
  | _, [] => true
  | depth, (op, operand) :: rest => operatorFormed depth op operand && operatorsFormed depth rest

def operatorFormed (depth : Nat) (op : String) (operand : Value) : Bool :=
  anyOperand.contains op ||
    match operand with
    | .array items => setOperators.contains op && decide (items.length ≤ 1000)
    | .document inner =>
      op == "$not" && isOperatorDocument inner && decide (depth + 1 ≤ 32) &&
        operatorsFormed (depth + 1) inner
    | _ => false

end

/-- An operator document so many levels deep. -/
def operatorDocumentFormed (depth : Nat) : Value → Bool
  | .document ops => decide (depth ≤ 32) && operatorsFormed depth ops
  | _ => false

/-- Whether an array is one of operator documents; there has to be one. -/
def isOperatorArray (items : List Value) : Bool := !items.isEmpty && items.all isOperatorValue

/-- What may be asked of a field: operators, several operator documents, or any other value. -/
def fieldFormed (depth : Nat) : Value → Bool
  | .document ops => !isOperatorDocument ops || operatorDocumentFormed depth (.document ops)
  | .array items => !isOperatorArray items || items.all (operatorDocumentFormed depth)
  | _ => true

mutual

/-- Whether the entries of a filter document are well formed, so many levels deep. -/
def entriesFormed : Nat → List (String × Value) → Bool
  | _, [] => true
  | depth, (key, value) :: rest => entryFormed depth key value && entriesFormed depth rest

def entryFormed (depth : Nat) (key : String) (value : Value) : Bool :=
  if connectives.contains key then
    match value with
    | .array items => membersFormed (depth + 1) items
    | _ => false
  else !isOperatorKey key && fieldFormed depth value

/-- Whether all in an array are filter documents, so many levels deep. -/
def membersFormed : Nat → List Value → Bool
  | _, [] => true
  | depth, .document fields :: rest =>
    decide (depth ≤ 32) && entriesFormed depth fields && membersFormed depth rest
  | _, _ :: _ => false

end

/-- Whether a document is a filter document, so many levels deep. -/
def formed (depth : Nat) (q : Document) : Bool := decide (depth ≤ 32) && entriesFormed depth q

/-! ## What it means -/

/-- The truth of an operator that looks at its operand as a whole. -/
def leafHolds (found : Option Value) (operand : Value) : String → Bool
  | "$eq" => FilterOp.eq.holds found operand
  | "$ne" => FilterOp.ne.holds found operand
  | "$gt" => FilterOp.gt.holds found operand
  | "$gte" => FilterOp.gte.holds found operand
  | "$lt" => FilterOp.lt.holds found operand
  | "$lte" => FilterOp.lte.holds found operand
  | "$exists" => found.isSome == Filter.truthy operand
  | _ => false

/-- The truth of an operator on a set of values. -/
def setHolds (found : Option Value) (values : List Value) : String → Bool
  | "$in" => Filter.isAmong found values
  | "$nin" => !Filter.isAmong found values
  | _ => false

mutual

/-- The truths of the operators of an operator document, asked of what a path leads to. -/
def operatorTruths (found : Option Value) : List (String × Value) → List Bool
  | [] => []
  | (op, operand) :: rest => operatorHolds found op operand :: operatorTruths found rest

def operatorHolds (found : Option Value) (op : String) (operand : Value) : Bool :=
  if anyOperand.contains op then leafHolds found operand op
  else
    match operand with
    | .array items => setHolds found items op
    | .document inner => !(operatorTruths found inner).all id
    | _ => false

end

/-- All operators of an operator document. -/
def operatorDocumentHolds (found : Option Value) : Value → Bool
  | .document ops => (operatorTruths found ops).all id
  | _ => false

/-- The truth of what is asked of a field. -/
def fieldHolds (found : Option Value) : Value → Bool
  | .document ops =>
    if isOperatorDocument ops then operatorDocumentHolds found (.document ops)
    else FilterOp.eq.holds found (.document ops)
  | .array items =>
    if isOperatorArray items then items.all (operatorDocumentHolds found)
    else FilterOp.eq.holds found (.array items)
  | value => FilterOp.eq.holds found value

/-- How a connective puts truths together. -/
def combine (truths : List Bool) : String → Bool
  | "$and" => truths.all id
  | "$or" => truths.any id
  | "$nor" => !truths.any id
  | _ => false

mutual

/-- The truths of the entries of a filter document, asked of a document. -/
def entryTruths (d : Document) : List (String × Value) → List Bool
  | [] => []
  | (key, value) :: rest => entryHolds d key value :: entryTruths d rest

def entryHolds (d : Document) (key : String) (value : Value) : Bool :=
  if connectives.contains key then
    match value with
    | .array items => combine (memberTruths d items) key
    | _ => false
  else fieldHolds (FieldPath.find? d key) value

/-- The truths of the filter documents in an array. -/
def memberTruths (d : Document) : List Value → List Bool
  | [] => []
  | .document fields :: rest => (entryTruths d fields).all id :: memberTruths d rest
  | _ :: rest => memberTruths d rest

end

/-- Whether a filter document holds of a document: all its entries do. -/
def holds (d : Document) (q : Document) : Bool := (entryTruths d q).all id

end FilterLanguage

/-! ## Parsers that agree with the language -/

namespace Filter

open FilterLanguage

/-- A parsed filter that is there just if what it was parsed from is well formed, and that then has
the same meaning. -/
def Reads (parsed : Except FilterError Filter) (formed : Bool) (truth : Document → Bool) : Prop :=
  match parsed with
  | .ok f => formed = true ∧ ∀ d, f.eval d = truth d
  | .error _ => formed = false

/-- The same of filters in a row. -/
def ReadsAll (parsed : Except FilterError (List Filter)) (formed : Bool)
    (truths : Document → List Bool) : Prop :=
  match parsed with
  | .ok fs => formed = true ∧ ∀ d, fs.map (eval d) = truths d
  | .error _ => formed = false

namespace Reads

variable {parsed : Except FilterError Filter} {formed : Bool} {truth : Document → Bool}

/-- Nothing that lies too deep is accepted. -/
theorem guarded (h : Reads parsed formed truth) (depth : Nat) :
    Reads (if maxNesting < depth then .error .nestedTooDeeply else parsed)
      (decide (depth ≤ 32) && formed) truth := by
  by_cases hdeep : maxNesting < depth
  · have hnot : ¬ depth ≤ 32 := Nat.not_le.mpr hdeep
    rw [if_pos hdeep, decide_eq_false hnot, Bool.false_and]
    exact rfl
  · have hle : depth ≤ 32 := Nat.not_lt.mp hdeep
    rw [if_neg hdeep, decide_eq_true hle, Bool.true_and]
    exact h

theorem accepted_iff (h : Reads parsed formed truth) :
    (∃ f, parsed = .ok f) ↔ formed = true := by
  match parsed with
  | .error _ =>
    rw [show formed = false from h]
    exact ⟨nofun, nofun⟩
  | .ok f => exact ⟨fun _ => h.1, fun _ => ⟨f, rfl⟩⟩

theorem eval_eq (h : Reads parsed formed truth) {f : Filter} (hf : parsed = .ok f)
    (d : Document) : f.eval d = truth d := by
  subst hf
  exact h.2 d

end Reads

namespace ReadsAll

variable {parsed : Except FilterError (List Filter)} {formed : Bool}
  {truths : Document → List Bool}

theorem nil : ReadsAll (.ok []) true fun _ => [] := ⟨rfl, fun _ => rfl⟩

/-- One filter after the other; the first that is malformed decides. -/
theorem cons {one : Except FilterError Filter} {oneFormed : Bool} {truth : Document → Bool}
    (hone : Reads one oneFormed truth) (h : ReadsAll parsed formed truths) :
    ReadsAll (do
      let f ← one
      let fs ← parsed
      .ok (f :: fs)) (oneFormed && formed) fun d => truth d :: truths d := by
  match one, parsed with
  | .error _, _ =>
    rw [show oneFormed = false from hone]
    exact Bool.false_and formed
  | .ok _, .error _ =>
    rw [show formed = false from h]
    exact Bool.and_false oneFormed
  | .ok f, .ok fs =>
    obtain ⟨hformed, htruth⟩ := hone
    obtain ⟨hallFormed, htruths⟩ := h
    refine ⟨by rw [hformed, hallFormed]; rfl, fun d => ?_⟩
    rw [List.map_cons, htruth, htruths]

/-- Filters that are made into one. -/
theorem map (h : ReadsAll parsed formed truths) {connect : List Filter → Filter}
    (combined : List Bool → Bool)
    (hconnect : ∀ fs d, (connect fs).eval d = combined (fs.map (eval d))) :
    Reads (parsed.map connect) formed fun d => combined (truths d) := by
  match parsed with
  | .error _ => exact h
  | .ok fs =>
    obtain ⟨hformed, htruths⟩ := h
    exact ⟨hformed, fun d => by rw [hconnect, htruths]⟩

end ReadsAll

theorem eval_and (fs : List Filter) (d : Document) :
    (and fs).eval d = (fs.map (eval d)).all id := by
  rw [eval, evalAll_eq, List.all_map]
  rfl

theorem eval_or (fs : List Filter) (d : Document) :
    (or fs).eval d = (fs.map (eval d)).any id := by
  rw [eval, evalAny_eq, List.any_map]
  rfl

/-- One filter for all of several, however many there are. -/
theorem eval_collapse (fs : List Filter) (d : Document) :
    (collapse fs).eval d = (fs.map (eval d)).all id := by
  match fs with
  | [] => rw [collapse, eval]; rfl
  | [f] => simp [collapse]
  | f :: g :: fs => exact eval_and _ d

/-! ## Operators -/

theorem leafHolds_of_comparisonOf? {op : String} {c : FilterOp} (h : comparisonOf? op = some c) :
    anyOperand.contains op = true ∧
      ∀ found operand, leafHolds found operand op = c.holds found operand := by
  unfold comparisonOf? at h
  split at h
  all_goals cases h
  all_goals exact ⟨by decide, fun _ _ => rfl⟩

/-- An operator that is no comparison and does not look for presence is none that takes any
operand. -/
theorem not_mem_anyOperand {op : String} (h : comparisonOf? op = none) (hexists : op ≠ "$exists") :
    anyOperand.contains op = false := by
  unfold comparisonOf? at h
  split at h
  all_goals cases h
  simp_all [anyOperand]

/-- An operator on a set of values. -/
theorem setOperator_reads (path : String) (depth : Nat) {op : String}
    (hop : setOperators.contains op = true) {connect : List Value → Filter}
    (hconnect : ∀ values d,
      (connect values).eval d = setHolds (FieldPath.find? d path) values op) (operand : Value) :
    Reads ((operandSet op operand).map connect) (operatorFormed depth op operand)
      fun d => operatorHolds (FieldPath.find? d path) op operand := by
  have hother : anyOperand.contains op = false ∧ (op == "$not") = false := by
    simp only [setOperators, List.contains_eq_mem, List.mem_cons, List.not_mem_nil, or_false,
      decide_eq_true_eq] at hop
    rcases hop with rfl | rfl
    · decide
    · decide
  unfold operandSet operatorFormed operatorHolds
  rw [hother.1, hother.2, hop]
  cases operand with
  | array items =>
    by_cases hsize : items.length ≤ maxSetSize
    · dsimp only
      rw [if_pos hsize]
      exact ⟨decide_eq_true hsize, fun d => hconnect items d⟩
    · dsimp only
      rw [if_neg hsize]
      exact decide_eq_false hsize
  | _ => rfl

/-- An operator other than `$not`. -/
theorem simpleOperator_reads (path : String) (depth : Nat) {op : String} (hnot : op ≠ "$not")
    (operand : Value) :
    Reads (simpleOperator path op operand) (operatorFormed depth op operand)
      fun d => operatorHolds (FieldPath.find? d path) op operand := by
  unfold simpleOperator
  cases hc : comparisonOf? op with
  | some c =>
    obtain ⟨hany, hleaf⟩ := leafHolds_of_comparisonOf? hc
    unfold operatorFormed operatorHolds
    rw [hany]
    exact ⟨rfl, fun d => (hleaf _ operand).symm⟩
  | none =>
    dsimp only
    split
    · next hin =>
      subst hin
      exact setOperator_reads path depth (by decide) (fun _ _ => rfl) operand
    · split
      · next hnin =>
        subst hnin
        exact setOperator_reads path depth (by decide) (fun _ _ => rfl) operand
      · split
        · next hexists =>
          subst hexists
          unfold operatorFormed operatorHolds
          exact ⟨rfl, fun d => by rw [eval]; rfl⟩
        · next hin hnin hexists =>
          have hset : setOperators.contains op = false := by simp [setOperators, hin, hnin]
          unfold operatorFormed
          rw [not_mem_anyOperand hc hexists, hset, beq_false_of_ne hnot]
          cases operand with
          | _ => rfl

/-- One operator of an operator document. -/
def operator (path : String) (depth : Nat) (op : String) (operand : Value) :
    Except FilterError Filter :=
  if op = "$not" then
    match operand with
    | .document inner =>
      if isOperatorDocument inner then (parseOperators path (depth + 1) inner).map not
      else .error .notNeedsOperators
    | _ => .error .notNeedsOperators
  else simpleOperator path op operand

/-- An operator document is read operator by operator. -/
theorem operators_cons (path : String) (depth : Nat) (op : String) (operand : Value)
    (rest : List (String × Value)) :
    operators path depth ((op, operand) :: rest) = (do
      let f ← operator path depth op operand
      let fs ← operators path depth rest
      .ok (f :: fs)) := by
  unfold operator parseOperators
  rw [operators.eq_def]
  dsimp only
  split
  · cases operand with
    | document inner =>
      dsimp only
      split
      · split
        · rfl
        · cases operators path (depth + 1) inner <;> rfl
      · rfl
    | _ => rfl
  · rfl

/-- The negation of an operator document. -/
theorem not_reads {path : String} {depth : Nat} {inner : List (String × Value)}
    (h : Reads (parseOperators path (depth + 1) inner)
      (operatorDocumentFormed (depth + 1) (.document inner))
      fun d => operatorDocumentHolds (FieldPath.find? d path) (.document inner)) :
    Reads (operator path depth "$not" (.document inner))
      (operatorFormed depth "$not" (.document inner))
      fun d => operatorHolds (FieldPath.find? d path) "$not" (.document inner) := by
  have hformed : operatorFormed depth "$not" (.document inner) =
      (isOperatorDocument inner && operatorDocumentFormed (depth + 1) (.document inner)) := by
    rw [operatorFormed, operatorDocumentFormed, ← Bool.and_assoc]
    rfl
  rw [hformed]
  unfold operator
  dsimp only
  cases isOperatorDocument inner with
  | false => exact Bool.false_and _
  | true =>
    rw [if_pos rfl, if_pos rfl, Bool.true_and]
    rcases hparsed : parseOperators path (depth + 1) inner with e | f
    · rw [hparsed] at h
      exact h
    · rw [hparsed] at h
      refine ⟨h.1, fun d => ?_⟩
      rw [eval, h.2]
      unfold operatorHolds
      rfl

mutual

/-- The operators of an operator document are read as they stand. -/
theorem operators_reads (path : String) : (depth : Nat) → (ops : List (String × Value)) →
    ReadsAll (operators path depth ops) (operatorsFormed depth ops)
      fun d => operatorTruths (FieldPath.find? d path) ops
  | depth, [] => by
    rw [operators]
    exact .nil
  | depth, (op, operand) :: rest => by
    rw [operators_cons]
    exact .cons (operator_reads path depth op operand) (operators_reads path depth rest)

theorem operator_reads (path : String) (depth : Nat) (op : String) (operand : Value) :
    Reads (operator path depth op operand) (operatorFormed depth op operand)
      fun d => operatorHolds (FieldPath.find? d path) op operand := by
  by_cases hnot : op = "$not"
  · subst hnot
    cases operand with
    | document inner =>
      have hops := (operators_reads path (depth + 1) inner).map (·.all id) eval_collapse
      exact not_reads (hops.guarded (depth + 1))
    | _ => exact rfl
  · unfold operator
    rw [if_neg hnot]
    exact simpleOperator_reads path depth hnot operand

end

/-! ## Fields -/

theorem parseOperators_reads (path : String) (depth : Nat) (ops : List (String × Value)) :
    Reads (parseOperators path depth ops) (operatorDocumentFormed depth (.document ops))
      fun d => operatorDocumentHolds (FieldPath.find? d path) (.document ops) :=
  ((operators_reads path depth ops).map (·.all id) eval_collapse).guarded depth

/-- Operator documents in an array are read one by one. -/
theorem operatorDocuments_reads (path : String) (depth : Nat) (items : List Value)
    (hitems : items.all isOperatorValue = true) :
    ReadsAll (operatorDocuments path depth items) (items.all (operatorDocumentFormed depth))
      fun d => items.map (operatorDocumentHolds (FieldPath.find? d path)) := by
  induction items with
  | nil =>
    rw [operatorDocuments]
    exact .nil
  | cons item items ih =>
    rw [List.all_cons, Bool.and_eq_true] at hitems
    cases item with
    | document ops =>
      rw [operatorDocuments]
      exact .cons (parseOperators_reads path depth ops) (ih hitems.2)
    | _ => exact absurd hitems.1 (by simp [isOperatorValue])

/-- What is not read as operators is a value to be equal to. -/
theorem literal_reads (path : String) (value : Value) :
    Reads (.ok (compare path .eq value)) true
      fun d => FilterOp.eq.holds (FieldPath.find? d path) value :=
  ⟨rfl, fun d => by rw [eval]⟩

theorem parseField_reads (path : String) (depth : Nat) (value : Value) :
    Reads (parseField path depth value) (fieldFormed depth value)
      fun d => fieldHolds (FieldPath.find? d path) value := by
  unfold parseField fieldFormed fieldHolds
  cases value with
  | document ops =>
    dsimp only
    cases isOperatorDocument ops with
    | true => exact parseOperators_reads path depth ops
    | false => exact literal_reads path _
  | array items =>
    dsimp only
    rw [show (!items.isEmpty && items.all isOperatorValue) = isOperatorArray items from rfl]
    cases harray : isOperatorArray items with
    | true =>
      have hitems : items.all isOperatorValue = true := (Bool.and_eq_true _ _ ▸ harray).2
      have hmap := (operatorDocuments_reads path depth items hitems).map (·.all id) eval_and
      simp only [List.all_map] at hmap
      exact hmap
    | false => exact literal_reads path _
  | _ => exact literal_reads path _

/-! ## Filter documents -/

theorem connective?_spec {key : String} {connect : List Filter → Filter}
    (h : connective? key = some connect) : connectives.contains key = true ∧
      ∀ fs d, (connect fs).eval d = combine (fs.map (eval d)) key := by
  unfold connective? at h
  split at h
  all_goals cases h
  · exact ⟨by decide, eval_and⟩
  · exact ⟨by decide, eval_or⟩
  · exact ⟨by decide, fun fs d => by rw [eval, eval_or]; rfl⟩

theorem connective?_none {key : String} (h : connective? key = none) :
    connectives.contains key = false := by
  unfold connective? at h
  split at h
  all_goals cases h
  simp_all [connectives]

theorem members_cons (depth : Nat) (key : String) (fields : List (String × Value))
    (rest : List Value) :
    members depth key (.document fields :: rest) = (do
      let f ← parseAt (depth + 1) fields
      let fs ← members depth key rest
      .ok (f :: fs)) := by
  rw [members]
  unfold parseAt
  split
  · rfl
  · rfl

mutual

/-- The entries of a filter document are read as they stand. -/
theorem clauses_reads : (depth : Nat) → (q : List (String × Value)) →
    ReadsAll (clauses depth q) (entriesFormed depth q) fun d => entryTruths d q
  | depth, [] => by
    rw [clauses]
    exact .nil
  | depth, (key, value) :: rest => by
    rw [clauses]
    exact .cons (clause_reads depth key value) (clauses_reads depth rest)

theorem clause_reads (depth : Nat) (key : String) (value : Value) :
    Reads (clause depth key value) (entryFormed depth key value) fun d => entryHolds d key value := by
  rw [clause]
  unfold entryFormed entryHolds
  cases hkey : connective? key with
  | some connect =>
    obtain ⟨hmem, hconnect⟩ := connective?_spec hkey
    rw [hmem]
    cases value with
    | array items => exact (members_reads depth key items).map (combine · key) hconnect
    | _ => exact rfl
  | none =>
    rw [connective?_none hkey]
    cases hop : isOperatorKey key with
    | true => exact rfl
    | false => exact parseField_reads key depth value

theorem members_reads (depth : Nat) (key : String) : (items : List Value) →
    ReadsAll (members depth key items) (membersFormed (depth + 1) items)
      fun d => memberTruths d items
  | [] => by
    rw [members]
    exact .nil
  | item :: rest => by
    cases item with
    | document fields =>
      have hdocument := (clauses_reads (depth + 1) fields).map (·.all id) eval_collapse
      rw [members_cons]
      exact .cons (hdocument.guarded (depth + 1)) (members_reads depth key rest)
    | _ => exact rfl

end

/-- A filter document is accepted just if it is well formed, and means what it says. -/
theorem parseAt_reads (depth : Nat) (q : Document) :
    Reads (parseAt depth q) (formed depth q) fun d => holds d q :=
  ((clauses_reads depth q).map (·.all id) eval_collapse).guarded depth

/-- The language of filters: a document is accepted exactly if it is a filter document, and the
filter that it becomes matches exactly the documents of which it holds. -/
theorem parse_language (q : Document) :
    ((∃ f, parse q = .ok f) ↔ formed 0 q = true) ∧
      ∀ f, parse q = .ok f → ∀ d, f.eval d = holds d q := by
  have hreads : Reads (parse q) (formed 0 q) fun d => holds d q := parseAt_reads 0 q
  rcases hparse : parse q with e | f
  · rw [hparse] at hreads
    have hnot : formed 0 q = false := hreads
    simp [hnot]
  · rw [hparse] at hreads
    obtain ⟨hformed, hmeaning⟩ := hreads
    refine ⟨⟨fun _ => hformed, fun _ => ⟨f, rfl⟩⟩, ?_⟩
    intro f' hf'
    cases hf'
    exact hmeaning

/-- A filter document with each of the three kinds of things in it, and a document that it
matches. -/
theorem parse_language_nested :
    let q : Document := [("$or", .array
      [.document [("a", .document [("$not", .document [("$gt", .int32 3)])])],
        .document [("b", .array
          [.document [("$ne", .string "x")], .document [("$exists", .bool true)]])]])]
    ∃ f, parse q = .ok f ∧ f.eval [("a", .int32 5), ("b", .string "y")] = true := by
  intro q
  have hlanguage := parse_language q
  obtain ⟨f, hf⟩ := hlanguage.1.mpr (by rfl)
  exact ⟨f, hf, (hlanguage.2 f hf _).trans (by rfl)⟩

/-- Documents that have other keys too, and arrays that hold other values too, are values to be
equal to, even if they also hold an operator that there is none of. -/
example : formed 0 [("a", .document [("$bogus", .null), ("b", .null)]),
    ("c", .array [.document [("$bogus", .null)], .null])] = true := rfl

example : formed 0 [("a", .array [.document [("$bogus", .null)]])] = false := rfl

end Filter
end DocQuery
