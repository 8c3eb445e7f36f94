import DocQuery.Proofs.FilterLanguage

/-
  How deep a filter document stands. The depth decides whether the document is accepted and nothing
  else: what is accepted at one depth is accepted at every lesser one, and becomes the same filter.

  The parsers are put together in three ways: one after the other, with a function on the outcome,
  and behind a test of the depth. `Persists` goes through each of them, so the two inductions over
  operators and over filter documents only say where the parts come from.
-/

namespace DocQuery.Filter

/-- Whatever the first of two parsers makes of its input, the second makes as well. -/
def Persists {α : Type} (first second : Except FilterError α) : Prop :=
  ∀ a, first = .ok a → second = .ok a

namespace Persists

variable {α β : Type} {first second : Except FilterError α}

theorem refl (parsed : Except FilterError α) : Persists parsed parsed := fun _ h => h

theorem map (h : Persists first second) (f : α → β) : Persists (first.map f) (second.map f) := by
  intro b hb
  cases first with
  | error e => cases hb
  | ok a =>
    rw [h a rfl]
    exact hb

theorem cons {first' second' : Except FilterError (List α)} (h : Persists first second)
    (h' : Persists first' second') :
    Persists (do
      let a ← first
      let as ← first'
      .ok (a :: as)) (do
      let a ← second
      let as ← second'
      .ok (a :: as)) := by
  intro b hb
  cases first with
  | error e => cases hb
  | ok a =>
    cases first' with
    | error e => cases hb
    | ok as =>
      rw [h a rfl, h' as rfl]
      exact hb

/-- The test that nothing lies too deep is passed at every lesser depth. -/
theorem guarded (h : Persists first second) {depth depth' : Nat} (hle : depth ≤ depth') :
    Persists (if maxNesting < depth' then .error .nestedTooDeeply else first)
      (if maxNesting < depth then .error .nestedTooDeeply else second) := by
  intro a ha
  by_cases hdeep : maxNesting < depth'
  · rw [if_pos hdeep] at ha
    cases ha
  · rw [if_neg hdeep] at ha
    rw [if_neg (by omega)]
    exact h a ha

end Persists

/-! ## Operators -/

mutual

theorem operators_persists (path : String) {depth depth' : Nat} (hle : depth ≤ depth') :
    (ops : List (String × Value)) →
    Persists (operators path depth' ops) (operators path depth ops)
  | [] => by
    rw [operators, operators]
    exact .refl _
  | (op, operand) :: rest => by
    rw [operators_cons, operators_cons]
    exact .cons (operator_persists path hle op operand) (operators_persists path hle rest)

theorem operator_persists (path : String) {depth depth' : Nat} (hle : depth ≤ depth')
    (op : String) (operand : Value) :
    Persists (operator path depth' op operand) (operator path depth op operand) := by
  unfold operator
  split
  · cases operand with
    | document inner =>
      have hinner := (operators_persists path (Nat.succ_le_succ hle) inner).map collapse
      dsimp only
      split
      · exact (hinner.guarded (Nat.succ_le_succ hle)).map not
      · exact .refl _
    | _ => exact .refl _
  · exact .refl _

end

theorem parseOperators_persists (path : String) {depth depth' : Nat} (hle : depth ≤ depth')
    (ops : List (String × Value)) :
    Persists (parseOperators path depth' ops) (parseOperators path depth ops) :=
  ((operators_persists path hle ops).map collapse).guarded hle

theorem operatorDocuments_persists (path : String) {depth depth' : Nat} (hle : depth ≤ depth')
    (items : List Value) :
    Persists (operatorDocuments path depth' items) (operatorDocuments path depth items) := by
  induction items with
  | nil => exact .refl _
  | cons item items ih =>
    cases item with
    | document ops =>
      rw [operatorDocuments, operatorDocuments]
      exact .cons (parseOperators_persists path hle ops) ih
    | _ => exact ih

theorem parseField_persists (path : String) {depth depth' : Nat} (hle : depth ≤ depth')
    (value : Value) : Persists (parseField path depth' value) (parseField path depth value) := by
  unfold parseField
  cases value with
  | document ops =>
    dsimp only
    split
    · exact parseOperators_persists path hle ops
    · exact .refl _
  | array items =>
    dsimp only
    split
    · exact (operatorDocuments_persists path hle items).map and
    · exact .refl _
  | _ => exact .refl _

/-! ## Filter documents -/

mutual

theorem clauses_persists {depth depth' : Nat} (hle : depth ≤ depth') :
    (q : List (String × Value)) → Persists (clauses depth' q) (clauses depth q)
  | [] => by
    rw [clauses, clauses]
    exact .refl _
  | (key, value) :: rest => by
    rw [clauses, clauses]
    exact .cons (clause_persists hle key value) (clauses_persists hle rest)

theorem clause_persists {depth depth' : Nat} (hle : depth ≤ depth') (key : String)
    (value : Value) : Persists (clause depth' key value) (clause depth key value) := by
  rw [clause, clause]
  split
  · next connect _ =>
    cases value with
    | array items => exact (members_persists hle key items).map connect
    | _ => exact .refl _
  · split
    · exact .refl _
    · exact parseField_persists key hle value

theorem members_persists {depth depth' : Nat} (hle : depth ≤ depth') (key : String) :
    (items : List Value) → Persists (members depth' key items) (members depth key items)
  | [] => by
    rw [members, members]
    exact .refl _
  | item :: rest => by
    cases item with
    | document fields =>
      have hfields := (clauses_persists (Nat.succ_le_succ hle) fields).map collapse
      rw [members_cons, members_cons]
      exact .cons (hfields.guarded (Nat.succ_le_succ hle)) (members_persists hle key rest)
    | _ => exact .refl _

end

/-- A filter document that is accepted becomes the same filter at every lesser depth. -/
theorem parseAt_persists {depth depth' : Nat} (hle : depth ≤ depth') (q : Document) :
    Persists (parseAt depth' q) (parseAt depth q) :=
  ((clauses_persists hle q).map collapse).guarded hle

end DocQuery.Filter
