import DocQuery.Proofs.Clauses
import DocQuery.Proofs.Runs

/-
  How steps put a query together. Read off the list of steps: each comparison is a clause about the
  field selected last before it, negated if a negation stands between the two. Read off a run: the
  session after the steps. `runSteps_tracks` says that both are the same.
-/

namespace DocQuery

namespace Step

/-- Whether a step adds a clause. -/
def isClause : Step → Bool
  | compare _ _ => true
  | among _ => true
  | _ => false

/-- Whether a step is about the field selected last. -/
def asksField : Step → Bool
  | negate => true
  | step => step.isClause

/-- Whether a step stays with the collection at hand. -/
def staysPut : Step → Bool
  | server _ => false
  | collection _ => false
  | _ => true

def assignment? : Step → Option (String × Value)
  | assign field value => some (field, value)
  | _ => none

end Step

namespace Steps

/-- The field selected last, in steps with the newest first. -/
def latestField : List Step → Option String
  | [] => none
  | .select field :: _ => some field
  | _ :: earlier => latestField earlier

/-- Whether a negation stands after the field selected last, in steps with the newest first. -/
def negatedSince : List Step → Bool
  | [] => false
  | .select _ :: _ => false
  | .negate :: _ => true
  | _ :: earlier => negatedSince earlier

/-- The clause of a step, from the steps before it with the newest first. -/
def clauseOf (before : List Step) : Step → Option Clause
  | .compare comparison x => (latestField before).map fun field =>
      .compare field (comparison.resolve (negatedSince before)) x
  | .among xs => (latestField before).map fun field => .among field xs (negatedSince before)
  | _ => none

def clausesFrom (before : List Step) : List Step → List Clause
  | [] => []
  | step :: rest => (clauseOf before step).toList ++ clausesFrom (step :: before) rest

/-- The clauses of a list of steps, in order. -/
def clauses (steps : List Step) : List Clause := clausesFrom [] steps

/-- The assignments of a list of steps, in order. -/
def assignments (steps : List Step) : List (String × Value) := steps.filterMap Step.assignment?

/-- The update that makes assignments: a field assigned again keeps its place and takes the last
value. -/
def updateOf (assigned : List (String × Value)) : Document :=
  [("$set", .document (Keyed.ofList assigned))]

/-- Steps behind a collection that make a query which can be asked. -/
structure Composed (steps : List Step) : Prop where
  staysPut : ∀ step ∈ steps, step.staysPut = true
  /-- Negations and comparisons come after a field. -/
  placed : ∀ before step after, steps = before ++ step :: after → step.asksField = true →
    ∃ field, Step.select field ∈ before
  /-- Something is asked. -/
  asks : ∃ step ∈ steps, step.isClause = true
  fields : ∀ field, Step.select field ∈ steps → Filter.isOperatorKey field = false
  values : ∀ c ∈ clauses steps, ∀ x ∈ c.equalities, x.readsAsOperators = false

/-! ## Reading clauses off the steps -/

theorem clausesFrom_append (before xs ys : List Step) :
    clausesFrom before (xs ++ ys) = clausesFrom before xs ++ clausesFrom (xs.reverse ++ before) ys := by
  induction xs generalizing before with
  | nil => rfl
  | cons x xs ih => simp [clausesFrom, ih]

theorem clauses_append_single (steps : List Step) (step : Step) :
    clauses (steps ++ [step]) = clauses steps ++ (clauseOf steps.reverse step).toList := by
  unfold clauses
  rw [clausesFrom_append]
  simp [clausesFrom]

theorem latestField_eq_some {steps : List Step} {field : String}
    (h : latestField steps = some field) : Step.select field ∈ steps := by
  induction steps with
  | nil => cases h
  | cons step steps ih =>
    cases step with
    | select f => cases h; exact List.mem_cons_self
    | server | collection | negate | compare | among | assign =>
      exact List.mem_cons_of_mem _ (ih h)

theorem latestField_isSome {steps : List Step} {field : String} (h : Step.select field ∈ steps) :
    (latestField steps).isSome = true := by
  induction steps with
  | nil => cases h
  | cons step steps ih =>
    cases step with
    | select f => rfl
    | server | collection | negate | compare | among | assign =>
      rcases List.mem_cons.mp h with h | h
      · cases h
      · exact ih h

theorem field_of_clauseOf {before : List Step} {step : Step} {c : Clause}
    (h : clauseOf before step = some c) : latestField before = some c.field := by
  cases step with
  | compare comparison x => obtain ⟨field, hf, rfl⟩ := Option.map_eq_some_iff.mp h; exact hf
  | among xs => obtain ⟨field, hf, rfl⟩ := Option.map_eq_some_iff.mp h; exact hf
  | server | collection | select | negate | assign => cases h

theorem field_of_mem_clausesFrom {before steps : List Step} {c : Clause}
    (h : c ∈ clausesFrom before steps) :
    Step.select c.field ∈ before ∨ Step.select c.field ∈ steps := by
  induction steps generalizing before with
  | nil => cases h
  | cons step rest ih =>
    rcases List.mem_append.mp h with h | h
    · left
      exact latestField_eq_some (field_of_clauseOf (Option.mem_toList.mp h))
    · rcases ih h with h | h
      · rcases List.mem_cons.mp h with h | h
        · right; rw [h]; exact List.mem_cons_self
        · exact .inl h
      · exact .inr (List.mem_cons_of_mem _ h)

theorem Composed.plain {steps : List Step} (h : Composed steps) :
    ∀ c ∈ clauses steps, c.Plain := by
  intro c hc
  refine ⟨?_, h.values c hc⟩
  rcases field_of_mem_clausesFrom hc with hf | hf
  · cases hf
  · exact h.fields _ hf

theorem clauseOf_isSome {before : List Step} (step : Step) (hs : step.isClause = true)
    (hf : (latestField before).isSome = true) : (clauseOf before step).isSome = true := by
  cases step with
  | compare | among => simpa [clauseOf] using hf
  | server | collection | select | negate | assign => cases hs

theorem asksField_of_isClause {step : Step} (h : step.isClause = true) :
    step.asksField = true := by
  cases step with
  | compare | among => rfl
  | server | collection | select | negate | assign => cases h

theorem Composed.clauses_ne_nil {steps : List Step} (h : Composed steps) : clauses steps ≠ [] := by
  obtain ⟨step, hmem, hs⟩ := h.asks
  obtain ⟨before, after, rfl⟩ := List.append_of_mem hmem
  obtain ⟨field, hf⟩ := h.placed before step after rfl (asksField_of_isClause hs)
  have hlatest := latestField_isSome (List.mem_reverse.mpr hf)
  obtain ⟨c, hc⟩ := Option.isSome_iff_exists.mp (clauseOf_isSome step hs hlatest)
  unfold clauses
  rw [clausesFrom_append, clausesFrom, List.append_nil, hc]
  simp

/-! ## Reading clauses off a run -/

variable {σ κ η : Type}

/-- What the session holds after some steps behind a collection. -/
structure Tracks (steps : List Step) (c : Session κ η) : Prop where
  targetField : c.targetField = latestField steps.reverse
  negate : c.negate = (latestField steps.reverse).map fun _ => negatedSince steps.reverse
  filter : c.filter = Clause.filterOf (clauses steps)
  updateSpec : c.updateSpec =
    if assignments steps = [] then none else some (updateOf (assignments steps))
  multi : c.multi = c.updateSpec.map fun _ => true

theorem filterOf_append (cs : List Clause) (c : Clause) :
    Clause.filterOf (cs ++ [c]) = some (Fragment.conjoin (Clause.filterOf cs) c.fragment) := by
  unfold Clause.filterOf
  rw [List.map_append]
  exact Fragment.joined_append _ _

theorem assignments_append_single (steps : List Step) {step : Step} (h : step.assignment? = none) :
    assignments (steps ++ [step]) = assignments steps := by
  simp [assignments, h]

theorem assign_updateOf (assigned : List (String × Value)) (field : String) (value : Value) :
    Fragment.assign (if assigned = [] then none else some (updateOf assigned)) field value =
      updateOf (assigned ++ [(field, value)]) := by
  by_cases h : assigned = []
  · subst h; rfl
  · rw [if_neg h]
    simp [Fragment.assign, updateOf, Keyed.ofList, Keyed.put]

theorem addClause_tracks {steps : List Step} {c : Session κ η} (h : Tracks steps c) {step : Step}
    {clause : Clause} (hc : clauseOf steps.reverse step = some clause)
    (fragment : String → Bool → Document)
    (hfragment : fragment clause.field (negatedSince steps.reverse) = clause.fragment)
    (hrest : latestField (steps ++ [step]).reverse = latestField steps.reverse ∧
      negatedSince (steps ++ [step]).reverse = negatedSince steps.reverse ∧
      assignments (steps ++ [step]) = assignments steps) :
    ∃ c', Run.addClause c step.kind fragment = .ok c' ∧ Tracks (steps ++ [step]) c' ∧
      c'.connection = c.connection ∧ c'.collection = c.collection := by
  have hfield : c.targetField = some clause.field := by
    rw [h.targetField]; exact field_of_clauseOf hc
  have hneg : c.negated = negatedSince steps.reverse := by
    rw [Session.negated, h.negate, ← h.targetField, hfield]; rfl
  refine ⟨{ c with filter := some (Fragment.conjoin c.filter clause.fragment) }, ?_,
    ⟨?_, ?_, ?_, ?_, h.multi⟩, rfl, rfl⟩
  · rw [Run.addClause, hfield, hneg, ← hfragment]; rfl
  · rw [hrest.1]; exact h.targetField
  · rw [hrest.1, hrest.2.1]; exact h.negate
  · rw [clauses_append_single, hc, Option.toList_some, filterOf_append, ← h.filter]
  · rw [hrest.2.2]; exact h.updateSpec

/-- A step behind a collection succeeds, leaves the driver alone and does to the session what the
list of steps says. -/
theorem apply_tracks (d : Driver σ κ η) {steps : List Step} {c : Session κ η} (h : Tracks steps c)
    {step : Step} (hput : step.staysPut = true)
    (hask : step.asksField = true → (latestField steps.reverse).isSome = true) (s : σ) :
    ∃ c', Run.apply d step c s = (.ok (), c', s) ∧ Tracks (steps ++ [step]) c' ∧
      c'.connection = c.connection ∧ c'.collection = c.collection := by
  have hnone : clauseOf steps.reverse step = none → clauses (steps ++ [step]) = clauses steps := by
    intro hn; rw [clauses_append_single, hn]; simp
  cases step with
  | server | collection => cases hput
  | select field =>
    refine ⟨_, rfl, ⟨by simp [latestField], by simp [latestField, negatedSince], ?_, ?_, h.multi⟩,
      rfl, rfl⟩
    · rw [hnone rfl]; exact h.filter
    · rw [assignments_append_single steps rfl]; exact h.updateSpec
  | negate =>
    obtain ⟨field, hf⟩ := Option.isSome_iff_exists.mp (hask rfl)
    refine ⟨_, rfl, ⟨?_, ?_, ?_, ?_, h.multi⟩, rfl, rfl⟩
    · simpa [latestField] using h.targetField
    · simp [latestField, negatedSince, hf]
    · rw [hnone rfl]; exact h.filter
    · rw [assignments_append_single steps rfl]; exact h.updateSpec
  | compare comparison x =>
    obtain ⟨clause, hc⟩ := Option.isSome_iff_exists.mp
      (clauseOf_isSome (.compare comparison x) rfl (hask rfl))
    obtain ⟨c', hadd, htr, hconn⟩ := addClause_tracks h hc
      (fun field negate => Fragment.compare field (comparison.resolve negate) x)
      (by obtain ⟨field, hf, rfl⟩ := Option.map_eq_some_iff.mp hc; rfl)
      ⟨by simp [latestField], by simp [negatedSince], assignments_append_single steps rfl⟩
    refine ⟨c', ?_, htr, hconn⟩
    simp only [Run.apply, hadd]
  | among xs =>
    obtain ⟨clause, hc⟩ := Option.isSome_iff_exists.mp
      (clauseOf_isSome (.among xs) rfl (hask rfl))
    obtain ⟨c', hadd, htr, hconn⟩ := addClause_tracks h hc
      (fun field negate => Fragment.membership field xs negate)
      (by obtain ⟨field, hf, rfl⟩ := Option.map_eq_some_iff.mp hc; rfl)
      ⟨by simp [latestField], by simp [negatedSince], assignments_append_single steps rfl⟩
    refine ⟨c', ?_, htr, hconn⟩
    simp only [Run.apply, hadd]
  | assign field value =>
    have has : assignments (steps ++ [.assign field value]) = assignments steps ++ [(field, value)] := by
      simp [assignments, Step.assignment?]
    refine ⟨_, rfl, ⟨?_, ?_, ?_, ?_, rfl⟩, rfl, rfl⟩
    · simpa [latestField] using h.targetField
    · simpa [latestField, negatedSince] using h.negate
    · rw [hnone rfl]; exact h.filter
    · rw [has, if_neg (by simp), ← assign_updateOf, ← h.updateSpec]

theorem missing_eq_nil {c : Session κ η} {kind : StepKind}
    (h : ∀ part ∈ kind.requires, c.has part = true) : c.missing kind = [] := by
  rw [Session.missing, List.filter_eq_nil_iff]
  intro part hp
  simp [h part hp]

theorem Tracks.missing_step {steps : List Step} {c : Session κ η} (h : Tracks steps c)
    {step : Step} (hput : step.staysPut = true)
    (hask : step.asksField = true → (latestField steps.reverse).isSome = true)
    (hconn : c.connection.isSome = true) (hcoll : c.collection.isSome = true) :
    c.missing step.kind = [] := by
  apply missing_eq_nil
  have hfield : step.asksField = true → c.targetField.isSome = true := by
    intro ha; rw [h.targetField]; exact hask ha
  have hneg : step.asksField = true → c.negate.isSome = true := by
    intro ha; rw [h.negate]; simpa using hask ha
  cases step with
  | server | collection => cases hput
  | select | assign => simp [Step.kind, StepKind.requires, Session.has, hconn, hcoll]
  | negate | among =>
    simp [Step.kind, StepKind.requires, Session.has, hconn, hcoll, hfield rfl, hneg rfl]
  | compare comparison x =>
    cases comparison <;>
      simp [Step.kind, StepKind.requires, Session.has, hconn, hcoll, hfield rfl, hneg rfl]

/-- A run of steps behind a collection succeeds and gathers what the list of steps says. -/
theorem runSteps_tracks (d : Driver σ κ η) (total : Nat) {done : List Step} (rest : List Step)
    (n : Nat) {c : Session κ η} (h : Tracks done c) (hput : ∀ step ∈ rest, step.staysPut = true)
    (hplaced : ∀ before step after, rest = before ++ step :: after → step.asksField = true →
      ∃ field, Step.select field ∈ done ++ before)
    (hconn : c.connection.isSome = true) (hcoll : c.collection.isSome = true) (s : σ) :
    ∃ c' s', Run.runSteps d total n rest c s = (.ok (), c', s') ∧ Tracks (done ++ rest) c' ∧
      c'.connection = c.connection ∧ c'.collection = c.collection ∧ Run.Noted d s s' := by
  induction rest generalizing done n c s with
  | nil => exact ⟨c, s, rfl, by simpa using h, rfl, rfl, .refl⟩
  | cons step rest ih =>
    have hstep := hput step List.mem_cons_self
    have hask : step.asksField = true → (latestField done.reverse).isSome = true := by
      intro ha
      obtain ⟨field, hf⟩ := hplaced [] step rest rfl ha
      exact latestField_isSome (List.mem_reverse.mpr (by simpa using hf))
    have hm := h.missing_step hstep hask hconn hcoll
    obtain ⟨c', ha, htr, hconn', hcoll'⟩ := apply_tracks d h hstep hask
      (Run.trace d (Run.placeText n total step.kind) s)
    obtain ⟨c'', s'', hrun, htr', hc, hl, hnoted⟩ := ih (n + 1) htr
      (fun st hst => hput st (List.mem_cons_of_mem _ hst))
      (fun before st after he has => by
        obtain ⟨field, hf⟩ := hplaced (step :: before) st after (by rw [he]; rfl) has
        exact ⟨field, by simpa using hf⟩)
      (by rw [hconn']; exact hconn) (by rw [hcoll']; exact hcoll)
      (Run.trace d (Run.placeText n total step.kind) s)
    refine ⟨c'', s'', ?_, by simpa using htr', hc.trans hconn', hl.trans hcoll', ?_⟩
    · rw [Run.runSteps_cons d total n rest hm ha, hrun]
    · exact (Run.Noted.refl.note _).trans hnoted

/-- Steps that ask something leave what a search needs. -/
theorem Tracks.has_asked {steps : List Step} {c : Session κ η} (h : Tracks steps c)
    (hs : Composed steps) (hconn : c.connection.isSome = true)
    (hcoll : c.collection.isSome = true) : ∀ part ∈ StepKind.find.requires, c.has part = true := by
  have hlatest : (latestField steps.reverse).isSome = true := by
    obtain ⟨step, hmem, hclause⟩ := hs.asks
    obtain ⟨before, after, rfl⟩ := List.append_of_mem hmem
    obtain ⟨field, hf⟩ := hs.placed before step after rfl (asksField_of_isClause hclause)
    have hmem : Step.select field ∈ (before ++ step :: after).reverse := by simp [hf]
    exact latestField_isSome hmem
  have hfield : c.targetField.isSome = true := by rw [h.targetField]; exact hlatest
  have hneg : c.negate.isSome = true := by rw [h.negate]; simpa using hlatest
  have hfilter : c.filter.isSome = true := by
    obtain ⟨filter, f, hf, -⟩ := Clause.parse_filterOf hs.clauses_ne_nil hs.plain
    rw [h.filter, hf]; rfl
  simp [StepKind.requires, Session.has, hconn, hcoll, hfield, hneg, hfilter]

/-- What an update misses is an assignment. -/
theorem Tracks.missing_update {steps : List Step} {c : Session κ η} (h : Tracks steps c)
    (hs : Composed steps) (hconn : c.connection.isSome = true)
    (hcoll : c.collection.isSome = true) :
    c.missing .update = if assignments steps = [] then [.updateSpec, .updateOptions] else [] := by
  have hall := h.has_asked hs hconn hcoll
  have hfind : c.missing .find = [] := missing_eq_nil hall
  have hsplit : c.missing .update =
      c.missing .find ++ [.updateSpec, .updateOptions].filter fun part => !c.has part := by
    rw [Session.missing, Session.missing, ← List.filter_append]
    rfl
  rw [hsplit, hfind, List.nil_append]
  by_cases ha : assignments steps = []
  · simp [Session.has, h.multi, h.updateSpec, ha]
  · simp [Session.has, h.multi, h.updateSpec, ha]

end Steps
end DocQuery
