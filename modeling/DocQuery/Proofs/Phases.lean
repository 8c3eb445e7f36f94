import DocQuery.Engine.Driver
import DocQuery.Proofs.Composition
import DocQuery.Proofs.Preconditions

/-
  How far a run has come is told in two ways: the phase asks for one part of the session after the
  other, the table of needs lists parts for each kind of step. The two agree because of what a
  session cannot be (`Session.Consistent`): a step sets parts together, and none before those that
  it needs. `consistent_apply` is the step, and holds of a step that fails as well; a whole run
  follows.

  Apart from a server, steps only ever add to the session, and with more parts set the phase is no
  earlier one (`Session.Consistent.rank_mono`).
-/

namespace DocQuery

/-- The parts that the session has in a phase of a run that goes on, and in all later ones. -/
def Phase.parts : Phase → List SessionPart
  | unconnected => []
  | connected => [.connection]
  | collectionSelected => [.connection, .collection]
  | fieldSelected => [.connection, .collection, .targetField]
  | _ => [.connection, .collection, .targetField, .filter]

namespace Session

variable {κ η : Type} {c c' : Session κ η}

/-- How the parts of a session hang together while its run goes on. -/
structure Consistent (c : Session κ η) : Prop where
  running : c.succeeded = none
  /-- Without a connection nothing is set. -/
  unconnected : c.connection = none → ∀ part, c.has part = false
  selected : c.has .targetField = true ↔ c.has .negate = true
  asked : c.has .filter = true → c.has .targetField = true
  assigned : c.has .updateSpec = true ↔ c.has .updateOptions = true
  /-- An update goes to all matches and consists of assignments, of one at least. -/
  assignments : ∀ spec, c.updateSpec = some spec → c.multi = some true ∧
    ∃ fields, fields ≠ [] ∧ spec = [("$set", .document fields)]

/-- Where the phase of a session and the needs of steps agree. -/
structure Gauged (c : Session κ η) : Prop where
  collection : c.missing .collection = [] ↔ Phase.connected.rank ≤ c.phase.rank
  insert : c.missing .insert = [] ↔ Phase.collectionSelected.rank ≤ c.phase.rank
  equal : c.missing .equal = [] ↔ Phase.fieldSelected.rank ≤ c.phase.rank
  find : c.missing .find = [] ↔ c.phase = .filterReady

/-! ## Phases -/

theorem missing_eq_nil_iff {kind : StepKind} :
    c.missing kind = [] ↔ ∀ part ∈ kind.requires, c.has part = true :=
  ⟨fun h _ hpart => Run.has_of_missing_eq_nil h hpart, Steps.missing_eq_nil⟩

/-- The phase of a run that goes on, by what its session has. -/
theorem phase_running (h : c.succeeded = none) :
    c.phase =
      if c.has .connection then
        if c.has .collection then
          if c.has .filter then .filterReady
          else if c.has .targetField then .fieldSelected
          else .collectionSelected
        else .connected
      else .unconnected := by
  unfold phase has
  rw [h]
  cases c.connection with
  | none => rfl
  | some conn =>
    cases c.collection with
    | none => rfl
    | some coll => rfl

theorem rank_le (h : c.succeeded = none) : c.phase.rank ≤ Phase.filterReady.rank := by
  rw [phase_running h]
  repeat' split
  all_goals decide

theorem phase_eq_filterReady_iff (h : c.succeeded = none) :
    c.phase = .filterReady ↔ Phase.filterReady.rank ≤ c.phase.rank := by
  rw [phase_running h]
  repeat' split
  all_goals decide

namespace Consistent

variable (h : c.Consistent)
include h

/-- A run has come as far as a phase exactly if its session has the parts of the phase. -/
theorem rank_le_iff {p : Phase} (hp : p.rank ≤ Phase.filterReady.rank) :
    p.rank ≤ c.phase.rank ↔ ∀ part ∈ p.parts, c.has part = true := by
  have hasked := h.asked
  rw [phase_running h.running]
  cases p with
  | executed | failed => exact absurd hp (by decide)
  | unconnected | connected | collectionSelected | fieldSelected | filterReady =>
    simp only [Phase.parts, List.forall_mem_cons, List.not_mem_nil, false_implies, implies_true]
    generalize c.has .connection = conn, c.has .collection = coll, c.has .targetField = field,
      c.has .filter = filter at hasked ⊢
    revert conn coll field filter
    decide

/-- With more parts set the phase is no earlier one. -/
theorem rank_mono (h' : c'.Consistent)
    (hparts : ∀ part, c.has part = true → c'.has part = true) :
    c.phase.rank ≤ c'.phase.rank := by
  have hphase := rank_le h.running
  have hhas := (h.rank_le_iff hphase).mp (Nat.le_refl _)
  exact (h'.rank_le_iff hphase).mpr fun part hpart => hparts part (hhas part hpart)

/-- The table of needs and the phase agree on a session whose parts hang together. -/
theorem gauged : c.Gauged where
  collection := by
    rw [missing_eq_nil_iff, h.rank_le_iff (by decide)]
    rfl
  insert := by
    rw [missing_eq_nil_iff, h.rank_le_iff (by decide)]
    rfl
  equal := by
    rw [missing_eq_nil_iff, h.rank_le_iff (by decide)]
    simp [StepKind.requires, Phase.parts, ← h.selected]
  find := by
    rw [missing_eq_nil_iff, phase_eq_filterReady_iff h.running, h.rank_le_iff (by decide)]
    simp [StepKind.requires, Phase.parts, ← h.selected]

/-- Without a connection a session is as at the start of its run. -/
theorem eq_empty (hconn : c.connection = none) : c = .empty := by
  have hnone : ∀ {α : Type} {part : Option α}, part.isSome = false → part = none := by
    intro α part hpart
    cases part with
    | none => rfl
    | some a => cases hpart
  have hunset := h.unconnected hconn
  have hrunning := h.running
  obtain ⟨conn, coll, field, negate, filter, spec, multi, succeeded⟩ := c
  rw [empty, mk.injEq]
  exact ⟨hconn, hnone (hunset .collection), hnone (hunset .targetField), hnone (hunset .negate),
    hnone (hunset .filter), hnone (hunset .updateSpec), hnone (hunset .updateOptions), hrunning⟩

end Consistent

theorem consistent_empty : (empty : Session κ η).Consistent where
  running := rfl
  unconnected _ part := by cases part <;> rfl
  selected := Iff.rfl
  asked := nofun
  assigned := Iff.rfl
  assignments := nofun

/-- What a server leaves. -/
theorem consistent_connected (conn : κ) :
    { (empty : Session κ η) with connection := some conn }.Consistent where
  running := rfl
  unconnected := nofun
  selected := Iff.rfl
  asked := nofun
  assigned := Iff.rfl
  assignments := nofun

end Session

/-- An update to which assignments are added consists of assignments. -/
theorem Fragment.exists_assign {existing : Option Document}
    (h : ∀ spec, existing = some spec → ∃ fields, fields ≠ [] ∧ spec = [("$set", .document fields)])
    (field : String) (value : Value) :
    ∃ fields, fields ≠ [] ∧ assign existing field value = [("$set", .document fields)] := by
  cases existing with
  | none => exact ⟨[(field, value)], List.cons_ne_nil _ _, rfl⟩
  | some spec =>
    obtain ⟨fields, -, rfl⟩ := h spec rfl
    exact ⟨Keyed.put fields field value, List.ne_nil_of_mem (Keyed.mem_put_self fields field value),
      rfl⟩

namespace Run

variable {σ κ η : Type} {d : Driver σ κ η} {c c' : Session κ η}

/-! ## Steps -/

/-- A server finds a session in which nothing is set, since there was nothing to drop or all has
been dropped. -/
theorem vacate_eq_empty (h : c.Consistent) (s : σ) : (vacate d c s).1 = .empty := by
  unfold vacate
  split
  · rfl
  · next hconn => exact h.eq_empty (by simpa using hconn)

theorem consistent_addClause (h : c.Consistent) (hconn : c.connection ≠ none) {kind : StepKind}
    {fragment : String → Bool → Document} (hadd : addClause c kind fragment = .ok c') :
    c'.Consistent := by
  unfold addClause at hadd
  split at hadd
  · cases hadd
  · next field hfield =>
    have hasked : c.has .targetField = true := by
      unfold Session.has
      rw [required_eq_ok.mp hfield]
      rfl
    cases hadd
    exact ⟨h.running, fun hnone => absurd hnone hconn, h.selected, fun _ => hasked, h.assigned,
      h.assignments⟩

/-- Whatever becomes of a step, the parts of the session that it leaves hang together. -/
theorem consistent_apply (h : c.Consistent) {step : Step} (hready : c.missing step.kind = [])
    (s : σ) : (apply d step c s).2.1.Consistent := by
  -- only a server finds no connection
  have hconn : ∀ {P : Prop}, (∀ uri, step ≠ .server uri) → c.connection = none → P := by
    intro P hserver hnone
    have hhas := has_of_missing_eq_nil hready (connection_mem_requires hserver)
    unfold Session.has at hhas
    rw [hnone] at hhas
    cases hhas
  cases step with
  | server uri =>
    unfold apply
    dsimp only
    rw [applyServer_eq, vacate_eq_empty h]
    split
    · exact Session.consistent_empty
    · next conn _ _ => exact Session.consistent_connected conn
  | collection name =>
    unfold apply
    dsimp only
    split
    · exact h
    · split
      · exact h
      · exact ⟨h.running, hconn (by simp), h.selected, h.asked, h.assigned, h.assignments⟩
  | select field =>
    exact ⟨h.running, hconn (by simp), Iff.rfl, fun _ => rfl, h.assigned, h.assignments⟩
  | negate =>
    have hfield : c.has .targetField = true :=
      has_of_missing_eq_nil hready (by simp [Step.kind, StepKind.requires])
    exact ⟨h.running, hconn (by simp), iff_of_true hfield rfl, h.asked, h.assigned,
      h.assignments⟩
  | compare | among =>
    unfold apply
    dsimp only
    split
    · exact h
    · next hadd => exact consistent_addClause h (fun hnone => hconn (by simp) hnone) hadd
  | assign field value =>
    refine ⟨h.running, hconn (by simp), h.selected, h.asked, Iff.rfl, ?_⟩
    rintro _ ⟨⟩
    exact ⟨rfl, Fragment.exists_assign (fun spec hspec => (h.assignments spec hspec).2) field value⟩

/-- A step other than a server takes no part away, also if it fails. -/
theorem has_apply {step : Step} (hserver : ∀ uri, step ≠ .server uri)
    (hready : c.missing step.kind = []) (s : σ) {part : SessionPart} (hpart : c.has part = true) :
    (apply d step c s).2.1.has part = true := by
  rcases happly : apply d step c s with ⟨e | ⟨⟩, c', s'⟩
  · rcases apply_eq_error hready happly with ⟨uri, _, rfl, -⟩ | ⟨_, _, _, _, _, rfl, -⟩
    · exact absurd rfl (hserver uri)
    · exact hpart
  · exact (has_of_apply hserver hready happly part).mpr (.inl hpart)

/-! ## Runs -/

/-- In the course of a run the parts of the session hang together, wherever its steps end. -/
theorem consistent_runSteps (h : c.Consistent) (total n : Nat) (steps : List Step) (s : σ) :
    (runSteps d total n steps c s).2.1.Consistent :=
  runSteps_keeps d (I := fun c _ => c.Consistent) (fun _ _ _ hc => hc)
    (fun _ (_ : _ ∈ steps) _ s hready hc => consistent_apply hc hready s) total n c s h

/-- Steps without a server take no part away. -/
theorem has_runSteps {steps : List Step} (hserver : ∀ uri, .server uri ∉ steps) (total n : Nat)
    (s : σ) {part : SessionPart} (hpart : c.has part = true) :
    (runSteps d total n steps c s).2.1.has part = true :=
  runSteps_keeps d (I := fun c _ => c.has part = true) (fun _ _ _ hc => hc)
    (fun _ hstep _ s hready hc => has_apply (fun uri he => hserver uri (he ▸ hstep)) hready s hc)
    total n c s hpart

/-- The phase and the needs of steps tell the same of every session that a run comes to, whatever
its steps and whatever the driver does: the parts of the session hang together, each kind of step
finds what it needs from some phase on, and until the next server no part is taken away and the
phase becomes no earlier one. -/
theorem run_gauged (d : Driver σ κ η) (total : Nat) (steps : List Step) (s : σ) :
    let c := (runSteps d total 1 steps .empty s).2.1
    c.Consistent ∧ c.Gauged ∧
      ∀ more, (∀ uri, .server uri ∉ more) → ∀ n s',
        let c' := (runSteps d total n more c s').2.1
        c.phase.rank ≤ c'.phase.rank ∧ ∀ part, c.has part = true → c'.has part = true := by
  intro c
  have hc : c.Consistent := consistent_runSteps Session.consistent_empty total 1 steps s
  refine ⟨hc, hc.gauged, fun more hserver n s' => ?_⟩
  have hmore := consistent_runSteps (d := d) hc total n more s'
  have hparts : ∀ part, c.has part = true →
      (runSteps d total n more c s').2.1.has part = true :=
    fun part hpart => has_runSteps hserver total n s' hpart
  exact ⟨hc.rank_mono hmore hparts, hparts⟩

/-- From the choice of a collection to a clause and an assignment. -/
theorem run_gauged_restocking :
    let c := (runSteps Engine.driver 7 1 [.server "memory://shop", .collection "items"] .empty
      ⟨.empty, [], .empty (.numbered 0), []⟩).2.1
    let c' := (runSteps Engine.driver 7 3
      [.select "stock", .negate, .compare .equal (.int32 7), .assign "stock" (.int32 7)] c
      ⟨.empty, [], .empty (.numbered 0), []⟩).2.1
    c.phase = .collectionSelected ∧ c.Gauged ∧ c'.phase = .filterReady ∧
      c.phase.rank ≤ c'.phase.rank ∧ c'.has .collection = true := by
  intro c c'
  obtain ⟨-, hgauged, hmore⟩ := run_gauged Engine.driver 7
    [.server "memory://shop", .collection "items"] ⟨.empty, [], .empty (.numbered 0), []⟩
  obtain ⟨hrank, hparts⟩ := hmore
    [.select "stock", .negate, .compare .equal (.int32 7), .assign "stock" (.int32 7)]
    (fun uri => by simp) 3 ⟨.empty, [], .empty (.numbered 0), []⟩
  exact ⟨rfl, hgauged, rfl, hrank, hparts .collection rfl⟩

end Run
end DocQuery
