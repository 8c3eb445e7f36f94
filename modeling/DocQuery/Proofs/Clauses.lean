import DocQuery.Filter.Fragment
import DocQuery.Filter.Parse
import Mathlib.Data.List.Forall2

/-
  What the clauses of a query mean, and that the filter document made from them means the same. A
  clause becomes a fragment, the fragments are joined to one filter document, and that document is
  parsed again before it is asked of any document; `parse_filterOf` says that nothing is lost on
  the way. The one thing to be kept out are values that a parser takes for operators.
-/

namespace DocQuery

/-- What a clause asks of a field. -/
inductive Clause where
  | compare (field : String) (comparison : Comparison) (value : Value)
  | among (field : String) (values : List Value) (negated : Bool)

namespace Comparison

/-- Whether what a field leads to stands in relation to a value. -/
def holds : Comparison → Option Value → Value → Bool
  | equal, some v, x => v.alike x
  | equal, none, _ => false
  | notEqual, some v, x => !v.alike x
  | notEqual, none, _ => true
  | greaterThan, some v, x => v.compare? x == some .gt
  | greaterThan, none, _ => false
  | lessThan, some v, x => v.compare? x == some .lt
  | lessThan, none, _ => false

end Comparison

namespace Clause

def field : Clause → String
  | compare field _ _ => field
  | among field _ _ => field

/-- Whether a document satisfies a clause. One of several values: the field is there and alike to
one of them; negated: it is not there or alike to none. -/
def holds (d : Document) : Clause → Bool
  | compare field comparison x => comparison.holds (FieldPath.find? d field) x
  | among field xs false =>
    match FieldPath.find? d field with
    | some v => xs.any fun x => v.alike x
    | none => false
  | among field xs true =>
    match FieldPath.find? d field with
    | some v => xs.all fun x => !v.alike x
    | none => true

/-- The filter document of a clause. -/
def fragment : Clause → Document
  | compare field comparison x => Fragment.compare field comparison x
  | among field xs negated => Fragment.membership field xs negated

/-- The values that a clause compares by plain equality. -/
def equalities : Clause → List Value
  | compare _ .equal x => [x]
  | compare _ _ _ => []
  | among _ xs false => xs
  | among _ _ true => []

end Clause

/-- Whether a value under a field reads as operators: a document of operators, or an array of such
documents; both must hold something. -/
def Value.readsAsOperators : Value → Bool
  | .array items => !items.isEmpty && items.all Filter.isOperatorValue
  | v => Filter.isOperatorValue v

/-- A clause whose field and values cannot be taken for operators. -/
structure Clause.Plain (c : Clause) : Prop where
  field : Filter.isOperatorKey c.field = false
  values : ∀ x ∈ c.equalities, x.readsAsOperators = false

namespace Filter

/-! ## A single clause -/

theorem parseAt_eq {depth : Nat} (h : depth ≤ maxNesting) (d : Document) :
    parseAt depth d = (clauses depth d).map collapse := by
  unfold parseAt
  rw [if_neg (by omega)]

theorem connective?_eq_none {key : String} (h : isOperatorKey key = false) :
    connective? key = none := by
  unfold connective?
  split
  · exact absurd h (by decide)
  · exact absurd h (by decide)
  · exact absurd h (by decide)
  · rfl

/-- A document with one ordinary field asks what is asked of that field. -/
theorem parseAt_single {depth : Nat} (h : depth ≤ maxNesting) {key : String}
    (hk : isOperatorKey key = false) (v : Value) :
    parseAt depth [(key, v)] = parseField key depth v := by
  rw [parseAt_eq h, clauses, clause, connective?_eq_none hk, hk]
  simp only [clauses, Bool.false_eq_true, if_false]
  cases parseField key depth v <;> rfl

theorem parseField_plain {path : String} {depth : Nat} {v : Value}
    (h : v.readsAsOperators = false) : parseField path depth v = .ok (compare path .eq v) := by
  unfold parseField
  cases v with
  | document fields => simp_all [Value.readsAsOperators, isOperatorValue]
  | array items => simp only [Value.readsAsOperators] at h; simp [h]
  | _ => rfl

/-- One operator on a field. -/
theorem parseOperators_single {path op : String} {depth : Nat} (h : depth ≤ maxNesting)
    {c : FilterOp} (hc : comparisonOf? op = some c) (hnot : op ≠ "$not") (v : Value) :
    parseOperators path depth [(op, v)] = .ok (compare path c v) := by
  unfold parseOperators
  rw [if_neg (by omega), operators.eq_def]
  simp only [hnot, if_false, simpleOperator, hc, operators]
  rfl

theorem isOperatorValue_single {op : String} (hop : isOperatorKey op = true) (v : Value) :
    isOperatorValue (.document [(op, v)]) = true := by
  simp [isOperatorValue, isOperatorDocument, Keyed.keys, hop]

theorem parseField_operator {path op : String} {depth : Nat} (h : depth ≤ maxNesting)
    {c : FilterOp} (hc : comparisonOf? op = some c) (hop : isOperatorKey op = true)
    (hnot : op ≠ "$not") (v : Value) :
    parseField path depth (.document [(op, v)]) = .ok (compare path c v) := by
  have hdoc : isOperatorDocument [(op, v)] = true := isOperatorValue_single hop v
  unfold parseField
  rw [← parseOperators_single h hc hnot v]
  simp only [hdoc, if_true]

theorem parseAt_compare {depth : Nat} (h : depth ≤ maxNesting) {field : String}
    (hf : isOperatorKey field = false) (c : Comparison) {x : Value}
    (hx : c = .equal → x.readsAsOperators = false) :
    ∃ f, parseAt depth (Fragment.compare field c x) = .ok f ∧
      ∀ d, f.eval d = c.holds (FieldPath.find? d field) x := by
  cases c with
  | equal =>
    refine ⟨compare field .eq x, ?_, ?_⟩
    · rw [← parseField_plain (hx rfl)]; exact parseAt_single h hf x
    · intro d
      simp only [eval]
      cases FieldPath.find? d field <;> rfl
  | notEqual =>
    refine ⟨compare field .ne x, ?_, ?_⟩
    · rw [← parseField_operator h (by rfl : comparisonOf? "$ne" = some .ne) (by decide) (by decide)]
      exact parseAt_single h hf _
    · intro d
      simp only [eval]
      cases FieldPath.find? d field <;> rfl
  | greaterThan =>
    refine ⟨compare field .gt x, ?_, ?_⟩
    · rw [← parseField_operator h (by rfl : comparisonOf? "$gt" = some .gt) (by decide) (by decide)]
      exact parseAt_single h hf _
    · intro d
      simp only [eval]
      cases FieldPath.find? d field <;> rfl
  | lessThan =>
    refine ⟨compare field .lt x, ?_, ?_⟩
    · rw [← parseField_operator h (by rfl : comparisonOf? "$lt" = some .lt) (by decide) (by decide)]
      exact parseAt_single h hf _
    · intro d
      simp only [eval]
      cases FieldPath.find? d field <;> rfl

/-! ## Lists of filter documents -/

/-- Filters that, one by one, match what clauses ask for. -/
def Match (fs : List Filter) (ps : List (Document → Bool)) : Prop :=
  List.Forall₂ (fun f p => ∀ d, f.eval d = p d) fs ps

theorem Match.evalAll_eq {fs : List Filter} {ps : List (Document → Bool)} (h : Match fs ps)
    (d : Document) : evalAll d fs = ps.all fun p => p d := by
  induction h with
  | nil => rfl
  | cons hfp _ ih => rw [evalAll, List.all_cons, hfp, ih]

theorem Match.evalAny_eq {fs : List Filter} {ps : List (Document → Bool)} (h : Match fs ps)
    (d : Document) : evalAny d fs = ps.any fun p => p d := by
  induction h with
  | nil => rfl
  | cons hfp _ ih => rw [evalAny, List.any_cons, hfp, ih]

/-- Members of a connective are parsed one level deeper, one by one. -/
theorem members_match (depth : Nat) (key : String) (h : depth + 1 ≤ maxNesting) {ι : Type}
    (docOf : ι → Document) (holdsOf : ι → Document → Bool) (is : List ι)
    (hall : ∀ i ∈ is, ∃ f, parseAt (depth + 1) (docOf i) = .ok f ∧ ∀ d, f.eval d = holdsOf i d) :
    ∃ fs, members depth key (is.map fun i => .document (docOf i)) = .ok fs ∧
      Match fs (is.map holdsOf) := by
  induction is with
  | nil => exact ⟨[], by rw [List.map_nil, members], .nil⟩
  | cons i is ih =>
    obtain ⟨f, hf, he⟩ := hall i List.mem_cons_self
    obtain ⟨fs, hfs, hm⟩ := ih fun j hj => hall j (List.mem_cons_of_mem _ hj)
    refine ⟨f :: fs, ?_, .cons he hm⟩
    rw [List.map_cons, members, if_neg (by omega), ← parseAt_eq h, hf, hfs]
    rfl

/-- A document that is one connective over filter documents. -/
theorem parseAt_connective (depth : Nat) (h : depth ≤ maxNesting) {key : String}
    {connect : List Filter → Filter} (hk : connective? key = some connect) {items : List Value}
    {fs : List Filter} (hfs : members depth key items = .ok fs) :
    parseAt depth [(key, .array items)] = .ok (connect fs) := by
  rw [parseAt_eq h, clauses, clause, hk]
  simp only [hfs, clauses]
  rfl

theorem parseAt_membership {depth : Nat} (h : depth + 1 ≤ maxNesting) {field : String}
    (hf : isOperatorKey field = false) (xs : List Value)
    (hxs : ∀ x ∈ xs, x.readsAsOperators = false) :
    ∃ f, parseAt depth (Fragment.membership field xs false) = .ok f ∧
      ∀ d, f.eval d = (Clause.among field xs false).holds d := by
  obtain ⟨fs, hfs, hm⟩ := members_match depth "$or" h
    (fun x => Fragment.compare field .equal x)
    (fun x d => Comparison.equal.holds (FieldPath.find? d field) x) xs
    fun x hx => parseAt_compare h hf .equal fun _ => hxs x hx
  refine ⟨or fs, ?_, ?_⟩
  · exact parseAt_connective depth (by omega) (by rfl) hfs
  · intro d
    rw [eval, hm.evalAny_eq, List.any_map]
    simp only [Clause.holds, Function.comp_def]
    cases FieldPath.find? d field with
    | some v => rfl
    | none => simp [Comparison.holds]

/-- A list of inequalities on one field. -/
theorem operatorDocuments_ne {depth : Nat} (h : depth ≤ maxNesting) (field : String)
    (xs : List Value) :
    operatorDocuments field depth (xs.map fun x => .document [("$ne", x)]) =
      .ok (xs.map (compare field .ne)) := by
  induction xs with
  | nil => rw [List.map_nil, operatorDocuments]; rfl
  | cons x xs ih =>
    have hone : parseOperators field depth [("$ne", x)] = .ok (compare field .ne x) :=
      parseOperators_single h rfl (by decide) x
    rw [List.map_cons, operatorDocuments, hone, ih]
    rfl

theorem parseField_array {path : String} {depth : Nat} {items : List Value} (hne : items ≠ [])
    (hall : ∀ v ∈ items, isOperatorValue v = true) :
    parseField path depth (.array items) = (operatorDocuments path depth items).map and := by
  have hif : (!items.isEmpty && items.all isOperatorValue) = true := by
    rw [List.all_eq_true.mpr hall]; simp [hne]
  simp only [parseField, hif, if_true]

theorem parseAt_nonmembership {depth : Nat} (h : depth ≤ maxNesting) {field : String}
    (hf : isOperatorKey field = false) (xs : List Value) :
    ∃ f, parseAt depth (Fragment.membership field xs true) = .ok f ∧
      ∀ d, f.eval d = (Clause.among field xs true).holds d := by
  cases xs with
  | nil =>
    refine ⟨all, ?_, ?_⟩
    · rw [parseAt_eq h]; rfl
    · intro d
      simp only [eval, Clause.holds]
      cases FieldPath.find? d field <;> rfl
  | cons x xs =>
    have hops : parseField field depth (.array ((x :: xs).map fun x => .document [("$ne", x)])) =
        .ok (and ((x :: xs).map (compare field .ne))) := by
      rw [parseField_array (by simp), operatorDocuments_ne h]
      · rfl
      · intro v hv
        obtain ⟨x, -, rfl⟩ := List.mem_map.mp hv
        exact isOperatorValue_single (by decide) x
    refine ⟨and ((x :: xs).map (compare field .ne)), ?_, ?_⟩
    · rw [← hops]
      exact parseAt_single h hf _
    · intro d
      simp only [eval, evalAll_eq, List.all_map, Clause.holds, Function.comp_def]
      cases FieldPath.find? d field with
      | none => simp [FilterOp.holds]
      | some v => rfl

/-- A clause means what its filter document means, at any depth that leaves room for one more
level. -/
theorem parseAt_fragment (depth : Nat) (h : depth + 1 ≤ maxNesting) {c : Clause} (hc : c.Plain) :
    ∃ f, parseAt depth c.fragment = .ok f ∧ ∀ d, f.eval d = c.holds d := by
  cases c with
  | compare field comparison x =>
    refine parseAt_compare (by omega) hc.field comparison ?_
    intro he
    subst he
    exact hc.values x List.mem_cons_self
  | among field xs negated =>
    cases negated with
    | false => exact parseAt_membership h hc.field xs hc.values
    | true => exact parseAt_nonmembership (by omega) hc.field xs

end Filter

/-! ## Clauses joined to one filter -/

namespace Fragment

/-- The filter that fragments make when they are joined one after the other. -/
def joined (fragments : List Document) : Option Document :=
  fragments.foldl (fun filter fragment => some (conjoin filter fragment)) none

theorem joined_append (fragments : List Document) (fragment : Document) :
    joined (fragments ++ [fragment]) = some (conjoin (joined fragments) fragment) := by
  simp [joined]

theorem conjoin_of_ne {prev : Document} (h : ∀ items, prev ≠ [("$and", Value.array items)])
    (fragment : Document) :
    conjoin (some prev) fragment = [("$and", .array [.document prev, .document fragment])] := by
  unfold conjoin
  split
  · next he => cases he
  · next items he => exact absurd (Option.some.inj he) (h items)
  · next he => rw [Option.some.inj he]

theorem foldl_conjoin (items : List Value) (fragments : List Document) :
    fragments.foldl (fun filter fragment => some (conjoin filter fragment))
        (some [("$and", .array items)]) =
      some [("$and", .array (items ++ fragments.map .document))] := by
  induction fragments generalizing items with
  | nil => simp
  | cons fragment rest ih =>
    have hstep : conjoin (some [("$and", .array items)]) fragment =
        [("$and", .array (items ++ [.document fragment]))] := rfl
    rw [List.foldl_cons, List.map_cons, hstep, ih, List.append_assoc]
    rfl

/-- From the second fragment on there is one `$and` over all of them. -/
theorem joined_cons_cons {first : Document} (h : ∀ items, first ≠ [("$and", Value.array items)])
    (second : Document) (rest : List Document) :
    joined (first :: second :: rest) =
      some [("$and", .array ((first :: second :: rest).map .document))] := by
  have hfirst : joined (first :: second :: rest) =
      rest.foldl (fun filter fragment => some (conjoin filter fragment))
        (some (conjoin (some first) second)) := rfl
  rw [hfirst, conjoin_of_ne h, foldl_conjoin]
  rfl

end Fragment

namespace Clause

/-- The filter document of several clauses; without clauses there is none. -/
def filterOf (cs : List Clause) : Option Document := Fragment.joined (cs.map fragment)

theorem fragment_ne_and {c : Clause} (hc : c.Plain) (items : List Value) :
    c.fragment ≠ [("$and", Value.array items)] := by
  have hkey : ∀ v, [(c.field, v)] ≠ [("$and", Value.array items)] := by
    intro v he
    have hf : c.field = "$and" := by simp at he; exact he.1
    have := hc.field
    rw [hf] at this
    exact absurd this (by decide)
  cases c with
  | compare field comparison x =>
    cases comparison with
    | equal => exact hkey x
    | notEqual | greaterThan | lessThan => exact hkey _
  | among field xs negated =>
    cases negated with
    | false => simp [fragment, Fragment.membership]
    | true =>
      cases xs with
      | nil => simp [fragment, Fragment.membership]
      | cons x xs => exact hkey _

/-- The filter document of clauses is accepted, and matches what satisfies all of them. -/
theorem parse_filterOf {cs : List Clause} (hne : cs ≠ []) (hcs : ∀ c ∈ cs, c.Plain) :
    ∃ filter f, filterOf cs = some filter ∧ Filter.parse filter = .ok f ∧
      ∀ d, f.eval d = cs.all fun c => c.holds d := by
  match cs, hne with
  | [c], _ =>
    obtain ⟨f, hf, he⟩ := Filter.parseAt_fragment 0 (by decide) (hcs c (by simp))
    exact ⟨c.fragment, f, rfl, hf, by simpa using he⟩
  | c :: c' :: rest, _ =>
    have hne := fragment_ne_and (hcs c (by simp))
    obtain ⟨fs, hfs, hm⟩ := Filter.members_match 0 "$and" (by decide) fragment
      (fun c d => c.holds d) (c :: c' :: rest)
      fun c hc => Filter.parseAt_fragment 1 (by decide) (hcs c hc)
    have hparse := Filter.parseAt_connective 0 (by decide)
      (by rfl : Filter.connective? "$and" = some .and) hfs
    refine ⟨[("$and", .array ((c :: c' :: rest).map fun c : Clause => .document c.fragment))],
      .and fs, ?_,
      hparse, ?_⟩
    · simpa [filterOf, Function.comp_def] using
        Fragment.joined_cons_cons hne c'.fragment (rest.map fragment)
    · intro d
      rw [Filter.eval, hm.evalAll_eq, List.all_map]
      rfl

end Clause
end DocQuery
