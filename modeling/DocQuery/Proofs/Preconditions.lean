import DocQuery.Proofs.Endings

/-
  What steps need, and what they establish. Both can be read off a list of steps alone, without a
  driver; `Passed.has_iff` says that the session of a run holds just what its steps have established.
  So the check in front of each step finds missing what the list of steps shows to be missing, and
  `run_guarded` puts together when a run is refused, what is named then, and what it has done until
  then.
-/

namespace DocQuery

/-- What a step leaves for later ones. -/
def Step.establishes : Step → List SessionPart
  | server _ => [.connection]
  | collection _ => [.collection]
  | select _ => [.targetField, .negate]
  | negate => []
  | compare _ _ => [.filter]
  | among _ => [.filter]
  | assign _ _ => [.updateSpec, .updateOptions]

namespace Steps

/-! ## Needs of a list of steps -/

/-- What is established after one more step. A server drops all that was there before. -/
def establish (parts : List SessionPart) : Step → List SessionPart
  | .server uri => Step.establishes (.server uri)
  | step => parts ++ step.establishes

/-- What steps establish. -/
def established (steps : List Step) : List SessionPart := steps.foldl establish []

theorem established_append_single (steps : List Step) (step : Step) :
    established (steps ++ [step]) = establish (established steps) step := by
  unfold established
  rw [List.foldl_append]
  rfl

/-- What a kind of step needs and does not find behind others, in the order of the table. -/
def unmet (before : List Step) (kind : StepKind) : List SessionPart :=
  kind.requires.filter fun part => part ∉ established before

/-- Where something may be needed: each step stands behind those before it, and the last act behind
all of them. -/
inductive Place (steps : List Step) (last : StepKind) : List Step → StepKind → Prop where
  | step {before after : List Step} {step : Step} (h : steps = before ++ step :: after) :
      Place steps last before step.kind
  | last : Place steps last steps last

/-- The first place at which something is missing, and all that is missing there. -/
structure FirstUnmet (steps : List Step) (last kind : StepKind) (parts : List SessionPart) :
    Prop where
  here : ∃ before, Place steps last before kind ∧ parts = unmet before kind ∧
    ∀ earlier kind', Place steps last earlier kind' → earlier.length < before.length →
      unmet earlier kind' = []
  some : parts ≠ []
  once : parts.Nodup

/-- A step among others and one more is the last one, or among those before it. -/
theorem of_append_single_eq {steps before after : List Step} {last step : Step}
    (h : steps ++ [last] = before ++ step :: after) :
    (before = steps ∧ step = last) ∨ ∃ after, steps = before ++ step :: after := by
  rcases List.eq_nil_or_concat after with rfl | ⟨after, x, rfl⟩
  · obtain ⟨hbefore, hlast⟩ := List.append_inj' h rfl
    exact .inl ⟨hbefore.symm, (List.cons.inj hlast).1.symm⟩
  · rw [List.concat_eq_append, ← List.cons_append, ← List.append_assoc] at h
    exact .inr ⟨after, (List.append_inj' h rfl).1⟩

theorem mem_unmet {before : List Step} {kind : StepKind} {part : SessionPart} :
    part ∈ unmet before kind ↔ part ∈ kind.requires ∧ part ∉ established before := by
  simp [unmet]

theorem nodup_requires (kind : StepKind) : kind.requires.Nodup := by
  cases kind <;> decide

theorem nodup_unmet (before : List Step) (kind : StepKind) : (unmet before kind).Nodup :=
  (nodup_requires kind).sublist List.filter_sublist

/-- A place in front of steps that are at hand is the place of one of these. -/
theorem Place.step_of_lt {before rest earlier : List Step} {last kind : StepKind}
    (h : Place (before ++ rest) last earlier kind) (hlt : earlier.length < before.length) :
    ∃ step after, before = earlier ++ step :: after ∧ kind = step.kind := by
  cases h with
  | last =>
    rw [List.length_append] at hlt
    omega
  | @step _ after step hsteps =>
    rcases List.append_eq_append_iff.mp hsteps with ⟨mid, hmid, -⟩ | ⟨mid, hmid, hrest⟩
    · have hlength := congrArg List.length hmid
      rw [List.length_append] at hlength
      omega
    · cases mid with
      | nil =>
        rw [List.append_nil] at hmid
        rw [hmid] at hlt
        omega
      | cons st mid =>
        obtain ⟨rfl, -⟩ := List.cons.inj hrest
        exact ⟨step, mid, hmid, rfl⟩

end Steps

/-! ## What the session of a run holds -/

namespace Run

open Steps

variable {σ κ η : Type}

/-- Every step but a server needs a connection. -/
theorem connection_mem_requires {step : Step} (h : ∀ uri, step ≠ .server uri) :
    .connection ∈ step.kind.requires := by
  cases step with
  | server uri => exact absurd rfl (h uri)
  | compare comparison value => cases comparison <;> simp [Step.kind, StepKind.requires]
  | collection | select | negate | among | assign => simp [Step.kind, StepKind.requires]

/-- A step other than a server adds to the session what it establishes. -/
theorem has_of_apply {d : Driver σ κ η} {step : Step} {c c' : Session κ η} {s s' : σ}
    (hserver : ∀ uri, step ≠ .server uri) (hready : c.missing step.kind = [])
    (h : apply d step c s = (.ok (), c', s')) (part : SessionPart) :
    c'.has part = true ↔ c.has part = true ∨ part ∈ step.establishes := by
  have hclause : ∀ {kind : StepKind} {fragment : String → Bool → Document},
      addClause c kind fragment = .ok c' →
        (c'.has part = true ↔ c.has part = true ∨ part ∈ [SessionPart.filter]) := by
    intro kind fragment hadd
    unfold addClause at hadd
    split at hadd
    · cases hadd
    · cases hadd
      cases part <;> simp [Session.has]
  cases step with
  | server uri => exact absurd rfl (hserver uri)
  | collection name =>
    unfold apply at h
    dsimp only at h
    split at h
    · cases h
    · split at h
      · cases h
      · cases h
        cases part <;> simp [Session.has, Step.establishes]
  | negate =>
    -- the flag was there already
    have hnegate : c.has .negate = true :=
      has_of_missing_eq_nil hready (by simp [Step.kind, StepKind.requires])
    change c.negate.isSome = true at hnegate
    cases h
    cases part <;> simp [Session.has, Step.establishes, hnegate]
  | select | assign =>
    cases h
    cases part <;> simp [Session.has, Step.establishes]
  | compare | among =>
    unfold apply at h
    dsimp only at h
    split at h
    · cases h
    · next hadd =>
      cases h
      exact hclause hadd

/-- A server leaves a session with a connection and, if there was nothing without one, nothing
else. -/
theorem has_of_applyServer {d : Driver σ κ η} {uri : String} {c c' : Session κ η} {s s' : σ}
    (hempty : c.connection = none → ∀ part, c.has part = false)
    (h : apply d (.server uri) c s = (.ok (), c', s')) (part : SessionPart) :
    c'.has part = true ↔ part = .connection := by
  have hvacate : ∀ part, (vacate d c s).1.has part = false := by
    intro part
    unfold vacate
    split
    · cases part <;> rfl
    · next hnone => exact hempty (by simpa using hnone) part
  unfold apply at h
  dsimp only at h
  rw [applyServer_eq] at h
  split at h
  · cases h
  · cases h
    have hpart := hvacate part
    cases part <;> simp_all [Session.has]

/-- Without a connection the session of a run is empty. -/
theorem Passed.empty_of_unconnected {d : Driver σ κ η} {total : Nat} {s s' : σ}
    {steps : List Step} {c : Session κ η} (h : Passed d total s steps c s')
    (hconn : c.connection = none) : ∀ part, c.has part = false := by
  cases h with
  | start => intro part; cases part <;> rfl
  | @step before step c₁ _ s₁ _ h hready hrun =>
    have hhas : c.has .connection = true := by
      by_cases hserver : ∃ uri, step = .server uri
      · obtain ⟨uri, rfl⟩ := hserver
        unfold apply at hrun
        dsimp only at hrun
        rw [applyServer_eq] at hrun
        split at hrun
        · cases hrun
        · cases hrun
          rfl
      · have hother : ∀ uri, step ≠ .server uri := fun uri he => hserver ⟨uri, he⟩
        exact (has_of_apply hother hready hrun .connection).mpr
          (.inl (has_of_missing_eq_nil hready (connection_mem_requires hother)))
    unfold Session.has at hhas
    rw [hconn] at hhas
    cases hhas

/-- The session holds what the steps have established, and nothing else. -/
theorem Passed.has_iff {d : Driver σ κ η} {total : Nat} {s s' : σ} {steps : List Step}
    {c : Session κ η} (h : Passed d total s steps c s') (part : SessionPart) :
    c.has part = true ↔ part ∈ established steps := by
  induction h with
  | start => cases part <;> simp [Session.has, Session.empty, established]
  | @step before step c₁ c₂ s₁ s₂ hbefore hready hrun ih =>
    rw [established_append_single]
    cases step with
    | server uri =>
      rw [has_of_applyServer hbefore.empty_of_unconnected hrun]
      simp [establish, Step.establishes]
    | collection | select | negate | compare | among | assign =>
      rw [has_of_apply (by intro uri he; cases he) hready hrun, ih]
      simp [establish]

theorem Passed.missing_eq {d : Driver σ κ η} {total : Nat} {s s' : σ} {steps : List Step}
    {c : Session κ η} (h : Passed d total s steps c s') (kind : StepKind) :
    c.missing kind = unmet steps kind := by
  unfold Session.missing unmet
  refine List.filter_congr ?_
  intro part _
  have hhas := h.has_iff part
  cases hc : c.has part <;> simp_all

/-- Steps that have passed missed nothing. -/
theorem Passed.unmet_eq_nil {d : Driver σ κ η} {total : Nat} {s s' : σ} {steps : List Step}
    {c : Session κ η} (h : Passed d total s steps c s') {before after : List Step} {step : Step}
    (hsteps : steps = before ++ step :: after) : unmet before step.kind = [] := by
  induction h generalizing after with
  | start => simp at hsteps
  | @step before' step' c₁ c₂ s₁ s₂ hbefore hready hrun ih =>
    rcases of_append_single_eq hsteps with ⟨rfl, rfl⟩ | ⟨after, hsteps⟩
    · rw [← hbefore.missing_eq]
      exact hready
    · exact ih hsteps

/-- At the end of steps that have passed, what misses something is the first to do so. -/
theorem Passed.firstUnmet {d : Driver σ κ η} {total : Nat} {s s' : σ}
    {steps before rest : List Step} {c : Session κ η} (h : Passed d total s before c s')
    (hsteps : steps = before ++ rest) {last kind : StepKind}
    (hplace : Place steps last before kind) (hmissing : c.missing kind ≠ []) :
    FirstUnmet steps last kind (c.missing kind) := by
  subst hsteps
  rw [h.missing_eq] at hmissing ⊢
  refine ⟨⟨before, hplace, rfl, ?_⟩, hmissing, nodup_unmet before kind⟩
  intro earlier kind' hearlier hlt
  obtain ⟨step, after, hsteps, rfl⟩ := hearlier.step_of_lt hlt
  exact h.unmet_eq_nil hsteps

end Run

/-! ## Refused runs -/

/-- A driver whose calls never fail; only closing may. -/
structure Driver.NeverFails {σ κ η : Type} (d : Driver σ κ η) : Prop where
  connect : ∀ uri s, ∃ conn s', d.connect uri s = (.ok conn, s')
  collection : ∀ conn name s, ∃ coll s', d.collection conn name s = (.ok coll, s')
  perform : ∀ coll r s, ∃ report s', d.perform coll r s = (.ok report, s')

example : (⟨fun _ s => (.ok (), s), fun _ _ s => (.ok (), s), fun _ _ s => (.ok (.deleted 0), s),
    fun _ s => (.ok (), s), fun _ s => s⟩ : Driver Unit Unit Unit).NeverFails :=
  ⟨fun _ _ => ⟨_, _, rfl⟩, fun _ _ _ => ⟨_, _, rfl⟩, fun _ _ _ => ⟨_, _, rfl⟩⟩

namespace Run

open Steps

variable {σ κ η : Type}

theorem mapError_store_ne_precondition {α : Type} (answer : Except StoreError α) (kind : StepKind)
    (parts : List SessionPart) :
    answer.mapError RunError.store ≠ .error (.precondition kind parts) := by
  intro h
  cases answer with
  | error e => cases h
  | ok a => cases h

/-- A run is refused for what is missing first. -/
theorem firstUnmet_of_run {d : Driver σ κ η} {steps : List Step} {op : Operation} {s : σ}
    {kind : StepKind} {parts : List SessionPart}
    (h : (run d steps op s).1 = .error (.precondition kind parts)) :
    FirstUnmet steps op.kind kind parts := by
  obtain ⟨c, s', -, hend⟩ := run_ended d steps op s
  generalize (run d steps op s).1 = outcome at h hend
  cases hend with
  | halted hhalted =>
    cases h
    cases hhalted with
    | unready hsteps hbefore hmissing => exact hbefore.firstUnmet hsteps (.step hsteps) hmissing
  | unready hsteps hmissing =>
    cases h
    exact hsteps.firstUnmet (List.append_nil steps).symm .last hmissing
  | answered => exact absurd h (mapError_store_ne_precondition _ _ _)

/-- Steps that have passed, with nothing missing behind them, leave no need unmet. -/
theorem Passed.unmet_place {d : Driver σ κ η} {total : Nat} {s s' : σ} {steps : List Step}
    {c : Session κ η} (h : Passed d total s steps c s') {last : StepKind}
    (hready : c.missing last = []) {before : List Step} {kind : StepKind}
    (hplace : Place steps last before kind) : unmet before kind = [] := by
  cases hplace with
  | step hsteps => exact h.unmet_eq_nil hsteps
  | last => exact (h.missing_eq last).symm.trans hready

/-- If no call fails, a run is refused exactly if something is needed that is not established. -/
theorem refused_iff {d : Driver σ κ η} (hd : d.NeverFails) (steps : List Step) (op : Operation)
    (s : σ) : (∃ kind parts, (run d steps op s).1 = .error (.precondition kind parts)) ↔
      ∃ before kind part, Place steps op.kind before kind ∧ part ∈ kind.requires ∧
        part ∉ established before := by
  constructor
  · rintro ⟨kind, parts, h⟩
    have hfirst := firstUnmet_of_run h
    obtain ⟨before, hplace, hparts, -⟩ := hfirst.here
    obtain ⟨part, hpart⟩ := List.exists_mem_of_ne_nil _ hfirst.some
    rw [hparts] at hpart
    exact ⟨before, kind, part, hplace, mem_unmet.mp hpart⟩
  · rintro ⟨before, kind, part, hplace, hpart⟩
    have hunmet : part ∈ unmet before kind := mem_unmet.mpr hpart
    obtain ⟨c, s', -, hend⟩ := run_ended d steps op s
    generalize (run d steps op s).1 = outcome at hend
    cases hend with
    | halted hhalted =>
      cases hhalted with
      | unready => exact ⟨_, _, rfl⟩
      | @unconnected _ _ uri c₁ s₁ _ _ _ _ hcall =>
        obtain ⟨conn, s₂, hok⟩ := hd.connect uri _
        cases hcall.symm.trans hok
      | @uncollected _ _ name conn _ _ _ _ _ _ _ hcall =>
        obtain ⟨coll, s₂, hok⟩ := hd.collection conn name _
        cases hcall.symm.trans hok
    | unready => exact ⟨_, _, rfl⟩
    | answered hsteps hready =>
      rw [hsteps.unmet_place hready hplace] at hunmet
      cases hunmet

/-- How the preconditions of a query guard its run. -/
structure Guarded (d : Driver σ κ η) (steps : List Step) (op : Operation) (s : σ) : Prop where
  /-- If no call fails, the run is refused exactly if a step, or the operation behind all of them,
  needs a part that the steps before it do not establish. -/
  refused : d.NeverFails →
    ((∃ kind parts, (run d steps op s).1 = .error (.precondition kind parts)) ↔
      ∃ before kind part, Place steps op.kind before kind ∧ part ∈ kind.requires ∧
        part ∉ established before)
  /-- A run that is refused, also one through a driver that may fail, names the first such step and
  all that it misses, in the order of the table and each part once. -/
  first : ∀ kind parts, (run d steps op s).1 = .error (.precondition kind parts) →
    FirstUnmet steps op.kind kind parts
  /-- The run ends at the first step that misses something or whose call fails, with the error of
  the call, or with the answer to its request. What is said of the end is exact: it decides the
  outcome, the session and the state of the driver. -/
  ends : ∃ c s', drive d steps (terminal d op) s = ((run d steps op s).1, c, s') ∧
    ∀ outcome c₁ s₁, Ended d steps op s outcome c₁ s₁ ↔
      outcome = (run d steps op s).1 ∧ c₁ = c ∧ s₁ = s'
  /-- There is at most one request, and there is one exactly if all steps and checks succeed. -/
  asks : (run d.recording steps op (.start s)).2.requests.length ≤ 1 ∧
    ((run d.recording steps op (.start s)).2.requests ≠ [] ↔ Ready d.recording steps op (.start s))
  /-- What a check has let through finds all that it looks for. -/
  step_found : ∀ step c s kind parts, c.missing (Step.kind step) = [] →
    (apply d step c s).1 ≠ .error (.precondition kind parts)
  operation_found : ∀ c s kind parts, c.missing op.kind = [] →
    (perform d op c s).1 ≠ .error (.precondition kind parts)

/-- The preconditions are exact and guard every run: for every list of steps, every operation and
every driver, whichever of its calls fail. -/
theorem run_guarded (d : Driver σ κ η) (steps : List Step) (op : Operation) (s : σ) :
    Guarded d steps op s where
  refused hd := refused_iff hd steps op s
  first _ _ h := firstUnmet_of_run h
  ends := by
    obtain ⟨c, s', hdrive, -⟩ := run_ended d steps op s
    refine ⟨c, s', hdrive, ?_⟩
    intro outcome c₁ s₁
    rw [← drive_eq_iff, hdrive]
    simp [eq_comm]
  asks := asks_iff d steps op s
  step_found := by
    intro step c s kind parts hready h
    rcases happly : apply d step c s with ⟨e | ⟨⟩, c', s'⟩
    · rw [happly] at h
      cases h
      rcases apply_eq_error hready happly with ⟨_, _, _, he, _⟩ | ⟨_, _, _, _, he, _⟩
      · cases he
      · cases he
    · rw [happly] at h
      cases h
  operation_found := by
    intro c s kind parts hready
    obtain ⟨coll, r, hcoll, hrequest⟩ := exists_request hready
    rw [perform_of_request hcoll hrequest]
    exact mapError_store_ne_precondition _ _ _

end Run
end DocQuery
