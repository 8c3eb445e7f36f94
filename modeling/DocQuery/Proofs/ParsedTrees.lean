import DocQuery.Proofs.ParserDepth

/-
  What the parser of filter documents hands on is bounded, however deep or wide the filter document
  is: the height of the tree, the sizes of the sets in it, and what its paths may look like.

  Height is spent level by level. An operator document puts a conjunction and a negation around what
  stands inside of it, a filter document a conjunction, a disjunction and a negation. So the bound
  on what is parsed falls by two or by three with each level (`operators_fit`, `clauses_fit`), and
  at the greatest depth that is accepted there is room for one more array of operators, and no
  more.
-/

namespace DocQuery.Filter

/-! ## Bounds of a tree -/

mutual

/-- The ends of a tree: the tests in it, and what asks for nothing. -/
def leaves : Filter → List Filter
  | and parts => leavesList parts
  | or parts => leavesList parts
  | not part => leaves part
  | f => [f]

def leavesList : List Filter → List Filter
  | [] => []
  | f :: rest => leaves f ++ leavesList rest

end

/-- The path that a test follows. -/
def path? : Filter → Option String
  | present path _ => some path
  | among path _ => some path
  | notAmong path _ => some path
  | compare path _ _ => some path
  | _ => none

/-- The set of values that a test goes through. -/
def values? : Filter → Option (List Value)
  | among _ values => some values
  | notAmong _ values => some values
  | _ => none

/-- Whether a tree is no higher than a limit, no set in it has more values than allowed, and no path
in it is written like an operator. -/
structure Fits (limit : Nat) (f : Filter) : Prop where
  height : f.height ≤ limit
  sets : ∀ leaf ∈ f.leaves, ∀ values, leaf.values? = some values → values.length ≤ 1000
  paths : ∀ leaf ∈ f.leaves, ∀ path, leaf.path? = some path → isOperatorKey path = false

theorem heightList_le_iff {fs : List Filter} {limit : Nat} :
    heightList fs ≤ limit ↔ ∀ f ∈ fs, f.height ≤ limit := by
  induction fs with
  | nil => simp [heightList]
  | cons f fs ih => rw [heightList, Nat.max_le, ih, List.forall_mem_cons]

theorem mem_leavesList {fs : List Filter} {leaf : Filter} :
    leaf ∈ leavesList fs ↔ ∃ f ∈ fs, leaf ∈ f.leaves := by
  induction fs with
  | nil => simp [leavesList]
  | cons f fs ih => simp [leavesList, ih]

namespace Fits

variable {limit : Nat} {f : Filter} {fs : List Filter}

theorem mono (h : Fits limit f) {limit' : Nat} (hle : limit ≤ limit') : Fits limit' f :=
  ⟨Nat.le_trans h.height hle, h.sets, h.paths⟩

/-- A tree over others that has their ends and is one higher. -/
theorem raised (h : ∀ f ∈ fs, Fits limit f) {g : Filter} (hheight : g.height = heightList fs + 1)
    (hleaves : g.leaves = leavesList fs) : Fits (limit + 1) g where
  height := by
    rw [hheight]
    exact Nat.succ_le_succ (heightList_le_iff.mpr fun f hf => (h f hf).height)
  sets leaf hleaf := by
    rw [hleaves] at hleaf
    obtain ⟨f, hf, hmem⟩ := mem_leavesList.mp hleaf
    exact (h f hf).sets leaf hmem
  paths leaf hleaf := by
    rw [hleaves] at hleaf
    obtain ⟨f, hf, hmem⟩ := mem_leavesList.mp hleaf
    exact (h f hf).paths leaf hmem

theorem and (h : ∀ f ∈ fs, Fits limit f) : Fits (limit + 1) (.and fs) :=
  raised h (by rw [Filter.height]) (by rw [leaves])

theorem or (h : ∀ f ∈ fs, Fits limit f) : Fits (limit + 1) (.or fs) :=
  raised h (by rw [Filter.height]) (by rw [leaves])

theorem not (h : Fits limit f) : Fits (limit + 1) (.not f) where
  height := by
    rw [Filter.height]
    exact Nat.succ_le_succ h.height
  sets leaf hleaf := by
    rw [leaves] at hleaf
    exact h.sets leaf hleaf
  paths leaf hleaf := by
    rw [leaves] at hleaf
    exact h.paths leaf hleaf

theorem all (limit : Nat) : Fits (limit + 1) .all where
  height := by simp [Filter.height]
  sets := by simp [leaves, values?]
  paths := by simp [leaves, path?]

/-- One test of a path, with a set of values that is not too large. -/
theorem test {path : String} (hpath : isOperatorKey path = false) (hleaf : f.leaves = [f])
    (hheight : f.height = 1) (hf : f.path? = some path)
    (hvalues : ∀ values, f.values? = some values → values.length ≤ 1000) : Fits 1 f where
  height := Nat.le_of_eq hheight
  sets leaf hmem := by
    rw [hleaf, List.mem_singleton] at hmem
    exact hmem ▸ hvalues
  paths leaf hmem path' hpath' := by
    rw [hleaf, List.mem_singleton] at hmem
    rw [hmem, hf, Option.some.injEq] at hpath'
    exact hpath' ▸ hpath

theorem compare {path : String} (hpath : isOperatorKey path = false) (op : FilterOp)
    (value : Value) : Fits 1 (.compare path op value) :=
  test hpath rfl rfl rfl nofun

theorem present {path : String} (hpath : isOperatorKey path = false) (expected : Bool) :
    Fits 1 (.present path expected) :=
  test hpath rfl rfl rfl nofun

theorem among {path : String} (hpath : isOperatorKey path = false) {values : List Value}
    (hsize : values.length ≤ 1000) : Fits 1 (.among path values) :=
  test hpath rfl rfl rfl (by rintro _ ⟨⟩; exact hsize)

theorem notAmong {path : String} (hpath : isOperatorKey path = false) {values : List Value}
    (hsize : values.length ≤ 1000) : Fits 1 (.notAmong path values) :=
  test hpath rfl rfl rfl (by rintro _ ⟨⟩; exact hsize)

theorem collapse (h : ∀ f ∈ fs, Fits limit f) : Fits (limit + 1) (collapse fs) := by
  match fs with
  | [] => exact .all limit
  | [f] => exact (h f (List.mem_singleton_self f)).mono (Nat.le_succ limit)
  | _ :: _ :: _ => exact .and h

end Fits

/-! ## Parsers that keep to a bound -/

/-- Whether all that a parser makes of its input has a property. -/
def Ensures {α : Type} (P : α → Prop) (parsed : Except FilterError α) : Prop :=
  ∀ a, parsed = .ok a → P a

namespace Ensures

variable {α β : Type} {P : α → Prop} {parsed : Except FilterError α}

theorem ok {a : α} (h : P a) : Ensures P (.ok a) := by
  rintro _ ⟨⟩
  exact h

theorem error (e : FilterError) : Ensures P (.error e) := nofun

theorem map {Q : β → Prop} {f : α → β} (h : Ensures P parsed) (hf : ∀ a, P a → Q (f a)) :
    Ensures Q (parsed.map f) := by
  cases parsed with
  | error e => exact .error e
  | ok a => exact .ok (hf a (h a rfl))

theorem cons {rest : Except FilterError (List α)} (h : Ensures P parsed)
    (hrest : Ensures (fun as => ∀ a ∈ as, P a) rest) :
    Ensures (fun as => ∀ a ∈ as, P a) (do
      let a ← parsed
      let as ← rest
      .ok (a :: as)) := by
  cases parsed with
  | error e => exact .error e
  | ok a =>
    cases rest with
    | error e => exact .error e
    | ok as => exact .ok (List.forall_mem_cons.mpr ⟨h a rfl, hrest as rfl⟩)

/-- What is parsed at all does not lie too deep. -/
theorem guarded {depth : Nat} (h : depth ≤ maxNesting → Ensures P parsed) :
    Ensures P (if maxNesting < depth then .error .nestedTooDeeply else parsed) := by
  split
  · exact .error _
  · next hdepth => exact h (Nat.not_lt.mp hdepth)

end Ensures

/-! ## Operators -/

theorem operandSet_size (op : String) (operand : Value) :
    Ensures (fun values => values.length ≤ 1000) (operandSet op operand) := by
  unfold operandSet
  cases operand with
  | array items =>
    dsimp only
    split
    · next hsize => exact .ok hsize
    · exact .error _
  | _ => exact .error _

theorem simpleOperator_fits {path : String} (hpath : isOperatorKey path = false) (op : String)
    (operand : Value) : Ensures (Fits 1) (simpleOperator path op operand) := by
  have hset := operandSet_size op operand
  unfold simpleOperator
  split
  · next c _ => exact .ok (.compare hpath c operand)
  · split
    · exact hset.map fun _ hsize => .among hpath hsize
    · split
      · exact hset.map fun _ hsize => .notAmong hpath hsize
      · split
        · exact .ok (.present hpath _)
        · exact .error _

mutual

/-- Each operator of an operator document becomes a tree that is two lower with each level. -/
theorem operators_fit {path : String} (hpath : isOperatorKey path = false) {depth : Nat}
    (hdepth : depth ≤ maxNesting) : (ops : List (String × Value)) →
    Ensures (fun fs => ∀ f ∈ fs, Fits (65 - 2 * depth) f) (operators path depth ops)
  | [] => by
    rw [operators]
    exact .ok nofun
  | (op, operand) :: rest => by
    rw [operators_cons]
    exact .cons (operator_fits hpath hdepth op operand) (operators_fit hpath hdepth rest)

theorem operator_fits {path : String} (hpath : isOperatorKey path = false) {depth : Nat}
    (hdepth : depth ≤ maxNesting) (op : String) (operand : Value) :
    Ensures (Fits (65 - 2 * depth)) (operator path depth op operand) := by
  unfold operator
  split
  · cases operand with
    | document inner =>
      dsimp only
      split
      · -- one for the conjunction inside, one for the negation
        have hinner : Ensures (Fits (64 - 2 * depth)) (parseOperators path (depth + 1) inner) := by
          refine .guarded fun hdeeper => (operators_fit hpath hdeeper inner).map fun fs hfs => ?_
          unfold maxNesting at hdeeper
          exact (Fits.collapse hfs).mono (by omega)
        unfold maxNesting at hdepth
        exact hinner.map fun f hf => hf.not.mono (by omega)
      · exact .error _
    | _ => exact .error _
  · unfold maxNesting at hdepth
    exact fun f hf => (simpleOperator_fits hpath op operand f hf).mono (by omega)

end

theorem parseOperators_fits {path : String} (hpath : isOperatorKey path = false) (depth : Nat)
    (ops : List (String × Value)) :
    Ensures (Fits (66 - 2 * depth)) (parseOperators path depth ops) := by
  refine .guarded fun hdepth => (operators_fit hpath hdepth ops).map fun fs hfs => ?_
  unfold maxNesting at hdepth
  exact (Fits.collapse hfs).mono (by omega)

theorem operatorDocuments_fit {path : String} (hpath : isOperatorKey path = false) (depth : Nat)
    (items : List Value) : Ensures (fun fs => ∀ f ∈ fs, Fits (66 - 2 * depth) f)
      (operatorDocuments path depth items) := by
  induction items with
  | nil => exact .ok nofun
  | cons item items ih =>
    cases item with
    | document ops =>
      rw [operatorDocuments]
      exact .cons (parseOperators_fits hpath depth ops) ih
    | _ => exact ih

theorem parseField_fits {path : String} (hpath : isOperatorKey path = false) {depth : Nat}
    (hdepth : depth ≤ maxNesting) (value : Value) :
    Ensures (Fits (67 - 2 * depth)) (parseField path depth value) := by
  unfold maxNesting at hdepth
  have hliteral : ∀ value, Ensures (Fits (67 - 2 * depth)) (.ok (.compare path .eq value)) :=
    fun value => .ok ((Fits.compare hpath .eq value).mono (by omega))
  unfold parseField
  cases value with
  | document ops =>
    dsimp only
    split
    · exact fun f hf => (parseOperators_fits hpath depth ops f hf).mono (by omega)
    · exact hliteral _
  | array items =>
    dsimp only
    split
    · exact (operatorDocuments_fit hpath depth items).map fun fs hfs =>
        (Fits.and hfs).mono (by omega)
    · exact hliteral _
  | _ => exact hliteral _

/-! ## Filter documents -/

theorem connective?_fits {key : String} {connect : List Filter → Filter}
    (h : connective? key = some connect) {limit : Nat} {fs : List Filter}
    (hfs : ∀ f ∈ fs, Fits limit f) : Fits (limit + 2) (connect fs) := by
  unfold connective? at h
  split at h
  all_goals cases h
  · exact (Fits.and hfs).mono (Nat.le_succ _)
  · exact (Fits.or hfs).mono (Nat.le_succ _)
  · exact (Fits.or hfs).not

mutual

/-- Each entry of a filter document becomes a tree that is three lower with each level. -/
theorem clauses_fit {depth : Nat} (hdepth : depth ≤ maxNesting) : (q : List (String × Value)) →
    Ensures (fun fs => ∀ f ∈ fs, Fits (99 - 3 * depth) f) (clauses depth q)
  | [] => by
    rw [clauses]
    exact .ok nofun
  | (key, value) :: rest => by
    rw [clauses]
    exact .cons (clause_fits hdepth key value) (clauses_fit hdepth rest)

theorem clause_fits {depth : Nat} (hdepth : depth ≤ maxNesting) (key : String) (value : Value) :
    Ensures (Fits (99 - 3 * depth)) (clause depth key value) := by
  rw [clause]
  split
  · next connect hconnect =>
    cases value with
    | array items =>
      have hmembers := members_fit hdepth key items
      unfold maxNesting at hdepth
      exact hmembers.map fun fs hfs => (connective?_fits hconnect hfs).mono (by omega)
    | _ => exact .error _
  · split
    · exact .error _
    · next hkey =>
      have hfield := parseField_fits (Bool.eq_false_iff.mpr hkey) hdepth value
      unfold maxNesting at hdepth
      exact fun f hf => (hfield f hf).mono (by omega)

theorem members_fit {depth : Nat} (hdepth : depth ≤ maxNesting) (key : String) :
    (items : List Value) →
    Ensures (fun fs => ∀ f ∈ fs, Fits (97 - 3 * depth) f) (members depth key items)
  | [] => by
    rw [members]
    exact .ok nofun
  | item :: rest => by
    cases item with
    | document fields =>
      have hdocument : Ensures (Fits (97 - 3 * depth)) (parseAt (depth + 1) fields) := by
        refine .guarded fun hdeeper => (clauses_fit hdeeper fields).map fun fs hfs => ?_
        unfold maxNesting at hdeeper
        exact (Fits.collapse hfs).mono (by omega)
      rw [members_cons]
      exact .cons hdocument (members_fit hdepth key rest)
    | _ => exact .error _

end

theorem parseAt_fits (depth : Nat) (q : Document) :
    Ensures (Fits (100 - 3 * depth)) (parseAt depth q) := by
  refine .guarded fun hdepth => (clauses_fit hdepth q).map fun fs hfs => ?_
  unfold maxNesting at hdepth
  exact (Fits.collapse hfs).mono (by omega)

/-- What is handed on is bounded: a filter document that is accepted becomes a tree of height one
hundred at most, with sets of a thousand values at most and without a path that is written like an
operator. What is accepted one level deeper is accepted as well, and becomes the same tree. -/
theorem parse_bounded :
    (∀ q f, parse q = .ok f → Fits 100 f) ∧
    (∀ depth q f, parseAt (depth + 1) q = .ok f → parseAt depth q = .ok f) ∧
    ∀ path depth ops f, parseOperators path (depth + 1) ops = .ok f →
      parseOperators path depth ops = .ok f :=
  ⟨parseAt_fits 0, fun depth q => parseAt_persists (Nat.le_succ depth) q,
    fun path depth ops => parseOperators_persists path (Nat.le_succ depth) ops⟩

/-- Two operators. -/
def sizeOperators : List (String × Value) :=
  [("$gt", .int32 1), ("$in", .array [.int32 2, .int32 3])]

theorem parseOperators_size {depth : Nat} (hdepth : depth ≤ maxNesting) :
    parseOperators "size" depth sizeOperators =
      .ok (.and [.compare "size" .gt (.int32 1), .among "size" [.int32 2, .int32 3]]) := by
  rw [parseOperators, if_neg (Nat.not_lt.mpr hdepth), sizeOperators, operators_cons,
    operators_cons, operators]
  rfl

/-- A filter document with so many levels below the first, each of them as high as it can be. -/
def tower : Nat → Document
  | 0 => [("size", .array [.document sizeOperators]), ("owner", .null)]
  | levels + 1 => [("$nor", .array [.document (tower levels)]), ("owner", .null)]

/-- An entry beside the owner. -/
theorem parseAt_owned {depth : Nat} (hdepth : depth ≤ maxNesting) {key : String} {value : Value}
    {f : Filter} (h : clause depth key value = .ok f) :
    parseAt depth [(key, value), ("owner", .null)] =
      .ok (.and [f, .compare "owner" .eq .null]) := by
  have howner : clauses depth [("owner", .null)] = .ok [.compare "owner" .eq .null] := rfl
  rw [parseAt, if_neg (Nat.not_lt.mpr hdepth), clauses, h, howner]
  rfl

/-- Levels of negated disjunctions in conjunctions reach the bound. -/
theorem parseAt_tower {levels depth : Nat} (h : depth + levels ≤ maxNesting) :
    ∃ f, parseAt depth (tower levels) = .ok f ∧ f.height = 3 * levels + 4 := by
  induction levels generalizing depth with
  | zero =>
    have hdepth : depth ≤ maxNesting := h
    have hsize : clause depth "size" (.array [.document sizeOperators]) =
        (operatorDocuments "size" depth [.document sizeOperators]).map and := rfl
    rw [operatorDocuments, parseOperators_size hdepth] at hsize
    exact ⟨_, parseAt_owned hdepth hsize, rfl⟩
  | succ levels ih =>
    obtain ⟨f, hf, hheight⟩ := ih (show depth + 1 + levels ≤ maxNesting by omega)
    have hnor : clause depth "$nor" (.array [.document (tower levels)]) =
        (members depth "$nor" [.document (tower levels)]).map fun fs => not (or fs) := rfl
    rw [members_cons, hf] at hnor
    refine ⟨_, parseAt_owned (by omega) hnor, ?_⟩
    simp only [height, heightList, hheight]
    omega

/-- The bound is reached with all levels that there may be. -/
theorem parse_bounded_tower :
    (∃ f, parse (tower 32) = .ok f ∧ f.height = 100 ∧ Fits 100 f) ∧
      parseAt 0 (tower 31) = parseAt 1 (tower 31) ∧
      parseOperators "size" 31 sizeOperators = parseOperators "size" 32 sizeOperators := by
  obtain ⟨f, hf, hheight⟩ := parseAt_tower (show 0 + 32 ≤ maxNesting by decide)
  obtain ⟨g, hg, -⟩ := parseAt_tower (show 1 + 31 ≤ maxNesting by decide)
  have hsize := parseOperators_size (show 32 ≤ maxNesting by decide)
  exact ⟨⟨f, hf, hheight, parse_bounded.1 _ f hf⟩, (parse_bounded.2.1 0 _ g hg).trans hg.symm,
    (parse_bounded.2.2 "size" 31 _ _ hsize).trans hsize.symm⟩

end DocQuery.Filter
