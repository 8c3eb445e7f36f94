import DocQuery.Proofs.Connections

/-
  How a run ends. Its steps are carried out one after the other; the first that misses something, or
  whose call fails, is the last thing that happens. `drive_eq_iff` says once all that a run can come
  to: with which outcome, with which session, and in which state of the driver, so that nothing that
  stands behind the end can have taken part. `asks_iff` says when a run makes its one request.
-/

namespace DocQuery.Run

variable {σ κ η : Type}

/-! ## Steps that have been carried out -/

/-- The state in which a step is carried out: its place has been noted. -/
def announce (d : Driver σ κ η) (total : Nat) (before : List Step) (kind : StepKind) (s : σ) : σ :=
  trace d (placeText (before.length + 1) total kind) s

/-- Steps that have all been carried out, from the start: each missed nothing and succeeded. -/
inductive Passed (d : Driver σ κ η) (total : Nat) (s : σ) : List Step → Session κ η → σ → Prop where
  | start : Passed d total s [] .empty s
  | step {before : List Step} {step : Step} {c c' : Session κ η} {s₁ s₂ : σ}
      (h : Passed d total s before c s₁) (hready : c.missing step.kind = [])
      (hrun : apply d step c (announce d total before step.kind s₁) = (.ok (), c', s₂)) :
      Passed d total s (before ++ [step]) c' s₂

/-- The last of some steps that have passed has passed behind the others. -/
theorem Passed.last {d : Driver σ κ η} {total : Nat} {s s' : σ} {before : List Step} {step : Step}
    {c' : Session κ η} (h : Passed d total s (before ++ [step]) c' s') :
    ∃ c s₁, Passed d total s before c s₁ ∧ c.missing step.kind = [] ∧
      apply d step c (announce d total before step.kind s₁) = (.ok (), c', s') := by
  generalize hsteps : before ++ [step] = steps at h
  cases h with
  | start => simp at hsteps
  | step hbefore hready hrun =>
    obtain ⟨rfl, hstep⟩ := List.append_inj' hsteps rfl
    obtain ⟨rfl, -⟩ := List.cons.inj hstep
    exact ⟨_, _, hbefore, hready, hrun⟩

/-- Steps that pass hand on to those behind them. -/
theorem runSteps_of_passed {d : Driver σ κ η} {total : Nat} {s s' : σ} {steps : List Step}
    {c : Session κ η} (h : Passed d total s steps c s') (rest : List Step) :
    runSteps d total 1 (steps ++ rest) .empty s =
      runSteps d total (steps.length + 1) rest c s' := by
  induction h generalizing rest with
  | start => rfl
  | @step before step c c' s₁ s₂ h hready hrun ih =>
    rw [List.append_assoc, ih, List.length_append]
    exact runSteps_cons d total _ rest hready hrun

/-! ## Where steps come to an end -/

/-- What a server step finds: a session without a connection, because there was none or because it
has been closed and everything dropped. -/
def vacate (d : Driver σ κ η) (c : Session κ η) (s : σ) : Session κ η × σ :=
  if c.connection.isSome then
    (.empty, (release d c (warn d Log.stepTarget
      "`server` called twice in one chain; closing the earlier connection" s)).2)
  else (c, s)

theorem applyServer_eq (d : Driver σ κ η) (uri : String) (c : Session κ η) (s : σ) :
    applyServer d uri c s =
      match d.connect uri (vacate d c s).2 with
      | (.error e, s') => (.error (.connect e), (vacate d c s).1, s')
      | (.ok conn, s') => (.ok (), { (vacate d c s).1 with connection := some conn }, s') := by
  unfold applyServer vacate
  cases c.connection.isSome with
  | true => rfl
  | false => rfl

section Keeps

variable {d : Driver σ κ η} {P : σ → Prop} (hnote : ∀ record s, P s → P (d.note record s))
  (hclose : ∀ conn s, P s → P (d.close conn s).2)
include hnote hclose

theorem vacate_keeps (c : Session κ η) {s : σ} (h : P s) : P (vacate d c s).2 := by
  unfold vacate
  split
  · exact release_keeps hnote hclose c (hnote _ _ h)
  · exact h

/-- What the calls that a step can make keep, the step keeps. -/
theorem apply_keeps {step : Step}
    (hconnect : ∀ uri, step = .server uri → ∀ s, P s → P (d.connect uri s).2)
    (hcollection : ∀ conn name s, P s → P (d.collection conn name s).2)
    (c : Session κ η) {s : σ} (h : P s) : P (apply d step c s).2.2 := by
  cases step with
  | server uri =>
    have hnext := hconnect uri rfl _ (vacate_keeps hnote hclose c h)
    unfold apply
    dsimp only
    rw [applyServer_eq]
    split
    · next hcall => rw [hcall] at hnext; exact hnext
    · next hcall => rw [hcall] at hnext; exact hnext
  | collection name =>
    unfold apply
    dsimp only
    split
    · exact h
    · next conn _ =>
      have hnext := hcollection conn name s h
      split
      · next hcall => rw [hcall] at hnext; exact hnext
      · next hcall => rw [hcall] at hnext; exact hnext
  | select | negate | assign => exact h
  | compare | among =>
    unfold apply
    dsimp only
    split
    · exact h
    · exact h

/-- What the calls that steps can make keep, a list of steps keeps, wherever it ends. -/
theorem runSteps_keep_calls {steps : List Step}
    (hconnect : ∀ uri, .server uri ∈ steps → ∀ s, P s → P (d.connect uri s).2)
    (hcollection : ∀ conn name s, P s → P (d.collection conn name s).2) (total : Nat)
    {s : σ} (h : P s) : P (runSteps d total 1 steps .empty s).2.2 :=
  runSteps_keeps d (I := fun _ s => P s) (fun record _ s => hnote record s)
    (fun _ hmem c _ _ h =>
      apply_keeps hnote hclose (fun uri hstep => hconnect uri (hstep ▸ hmem)) hcollection c h)
    total 1 .empty s h

end Keeps

/-- Steps of which one is the last to be looked at: it misses something, or its call fails. -/
inductive Halted (d : Driver σ κ η) (total : Nat) (s : σ) (steps : List Step) :
    RunError → Session κ η → σ → Prop where
  | unready {before after : List Step} {step : Step} {c : Session κ η} {s₁ : σ}
      (hsteps : steps = before ++ step :: after) (hbefore : Passed d total s before c s₁)
      (hmissing : c.missing step.kind ≠ []) :
      Halted d total s steps (.precondition step.kind (c.missing step.kind)) c
        (validate d c step.kind s₁).2
  | unconnected {before after : List Step} {uri : String} {c : Session κ η} {s₁ s₂ : σ}
      {e : StoreError} (hsteps : steps = before ++ .server uri :: after)
      (hbefore : Passed d total s before c s₁)
      (hcall : d.connect uri (vacate d c (announce d total before .server s₁)).2 =
        (.error e, s₂)) :
      Halted d total s steps (.connect e) (vacate d c (announce d total before .server s₁)).1 s₂
  | uncollected {before after : List Step} {name : String} {conn : κ} {c : Session κ η} {s₁ s₂ : σ}
      {e : StoreError} (hsteps : steps = before ++ .collection name :: after)
      (hbefore : Passed d total s before c s₁) (hconn : c.connection = some conn)
      (hcall : d.collection conn name (announce d total before .collection s₁) = (.error e, s₂)) :
      Halted d total s steps (.store e) c s₂

theorem has_of_missing_eq_nil {c : Session κ η} {kind : StepKind} (h : c.missing kind = [])
    {part : SessionPart} (hpart : part ∈ kind.requires) : c.has part = true := by
  rw [Session.missing, List.filter_eq_nil_iff] at h
  simpa using h part hpart

/-- A step that misses nothing fails only with its call to the driver: a server with that of
connecting, a collection with that of taking it. -/
theorem apply_eq_error {d : Driver σ κ η} {step : Step} {c c' : Session κ η} {s s' : σ}
    {e : RunError} (hready : c.missing step.kind = []) (h : apply d step c s = (.error e, c', s')) :
    (∃ uri cause, step = .server uri ∧ e = .connect cause ∧ c' = (vacate d c s).1 ∧
      d.connect uri (vacate d c s).2 = (.error cause, s')) ∨
    (∃ name conn cause, step = .collection name ∧ e = .store cause ∧ c' = c ∧
      c.connection = some conn ∧ d.collection conn name s = (.error cause, s')) := by
  have hfield : .targetField ∈ step.kind.requires → ∃ field, c.targetField = some field :=
    fun hpart => Option.isSome_iff_exists.mp (has_of_missing_eq_nil hready hpart)
  cases step with
  | server uri =>
    unfold apply at h
    dsimp only at h
    rw [applyServer_eq] at h
    split at h
    · next cause s₁ hcall =>
      cases h
      exact .inl ⟨uri, cause, rfl, rfl, rfl, hcall⟩
    · cases h
  | collection name =>
    have hhas : c.has .connection = true :=
      has_of_missing_eq_nil hready (by simp [Step.kind, StepKind.requires])
    obtain ⟨conn, hconn⟩ := Option.isSome_iff_exists.mp hhas
    unfold apply required at h
    simp only [hconn] at h
    split at h
    · next cause s₁ hcall =>
      cases h
      exact .inr ⟨name, conn, cause, rfl, rfl, rfl, hconn, hcall⟩
    · cases h
  | select | negate | assign => cases h
  | compare comparison value =>
    obtain ⟨field, hfield⟩ := hfield (by cases comparison <;> simp [Step.kind, StepKind.requires])
    unfold apply addClause required at h
    simp only [hfield] at h
    cases h
  | among values =>
    obtain ⟨field, hfield⟩ := hfield (by simp [Step.kind, StepKind.requires])
    unfold apply addClause required at h
    simp only [hfield] at h
    cases h

/-- Behind steps that have passed all others pass, or one of them is the last to be looked at. -/
theorem Passed.passed_or_halted {d : Driver σ κ η} {total : Nat} {s s₁ : σ} {before : List Step}
    {c : Session κ η} (h : Passed d total s before c s₁) (rest : List Step) :
    (∃ c' s', Passed d total s (before ++ rest) c' s') ∨
    (∃ e c' s', Halted d total s (before ++ rest) e c' s') := by
  induction rest generalizing before c s₁ with
  | nil => exact .inl ⟨c, s₁, by rw [List.append_nil]; exact h⟩
  | cons step rest ih =>
    by_cases hready : c.missing step.kind = []
    · rcases ha : apply d step c (announce d total before step.kind s₁) with ⟨e | ⟨⟩, c', s₂⟩
      · refine .inr ?_
        rcases apply_eq_error hready ha with ⟨uri, cause, rfl, -, -, hcall⟩ |
          ⟨name, conn, cause, rfl, -, -, hconn, hcall⟩
        · exact ⟨_, _, _, .unconnected rfl h hcall⟩
        · exact ⟨_, _, _, .uncollected rfl h hconn hcall⟩
      · have hnext := ih (h.step hready ha)
        rw [List.append_assoc] at hnext
        exact hnext
    · exact .inr ⟨_, _, _, .unready rfl h hready⟩

theorem passed_or_halted (d : Driver σ κ η) (total : Nat) (s : σ) (steps : List Step) :
    (∃ c s', Passed d total s steps c s') ∨ (∃ e c s', Halted d total s steps e c s') :=
  Passed.start.passed_or_halted steps

/-- The step that is the last to be looked at decides. -/
theorem runSteps_of_halted {d : Driver σ κ η} {total : Nat} {s s' : σ} {steps : List Step}
    {e : RunError} {c : Session κ η} (h : Halted d total s steps e c s') :
    runSteps d total 1 steps .empty s = (.error e, c, s') := by
  -- both calls fail behind steps that have passed, and what they leave is the end
  have hfails : ∀ {before after : List Step} {step : Step} {c c' : Session κ η} {s₁ s₂ : σ}
      {e : RunError}, Passed d total s before c s₁ → c.missing step.kind = [] →
      apply d step c (announce d total before step.kind s₁) = (.error e, c', s₂) →
      runSteps d total 1 (before ++ step :: after) .empty s = (.error e, c', s₂) := by
    intro before after step c c' s₁ s₂ e hbefore hready hrun
    unfold announce at hrun
    rw [runSteps_of_passed hbefore, runSteps]
    rcases validate_cases d c step.kind s₁ with ⟨-, hv⟩ | ⟨hmissing, -⟩
    · rw [hv]
      simp only [hrun]
    · exact absurd hready hmissing
  cases h with
  | @unready before after step c s₁ hsteps hbefore hmissing =>
    rw [hsteps, runSteps_of_passed hbefore, runSteps]
    rcases validate_cases d c step.kind s₁ with ⟨hready, -⟩ | ⟨-, record, hv⟩
    · exact absurd hready hmissing
    · rw [hv]
  | @unconnected before after uri c s₁ s₂ e hsteps hbefore hcall =>
    rw [hsteps]
    refine hfails hbefore rfl ?_
    unfold apply
    dsimp only
    rw [applyServer_eq, show Step.kind (.server uri) = .server from rfl, hcall]
  | @uncollected before after name conn c s₁ s₂ e hsteps hbefore hconn hcall =>
    rw [hsteps]
    refine hfails hbefore ?_ ?_
    · simp [Session.missing, Step.kind, StepKind.requires, Session.has, hconn]
    · unfold apply required
      dsimp only
      rw [hconn]
      dsimp only
      rw [show Step.kind (.collection name) = .collection from rfl, hcall]

/-! ## Where a run comes to an end -/

/-- How a run ends: among its steps, at what its operation misses, or with what the collection
answers to the one request. -/
inductive Ended (d : Driver σ κ η) (steps : List Step) (op : Operation) (s : σ) :
    Except RunError Report → Session κ η → σ → Prop where
  | halted {e : RunError} {c : Session κ η} {s' : σ}
      (h : Halted d (steps.length + 1) s steps e c s') : Ended d steps op s (.error e) c s'
  | unready {c : Session κ η} {s₁ : σ} (hsteps : Passed d (steps.length + 1) s steps c s₁)
      (hmissing : c.missing op.kind ≠ []) :
      Ended d steps op s (.error (.precondition op.kind (c.missing op.kind))) c
        (validate d c op.kind s₁).2
  | answered {c : Session κ η} {coll : η} {r : Request} {answer : Except StoreError Report}
      {s₁ s₂ : σ} (hsteps : Passed d (steps.length + 1) s steps c s₁)
      (hready : c.missing op.kind = []) (hcoll : c.collection = some coll)
      (hrequest : request c op = .ok r)
      (hcall : d.perform coll r (debug d Log.documentTarget (requestText op.kind r)
        (announce d (steps.length + 1) steps op.kind s₁)) = (answer, s₂)) :
      Ended d steps op s (answer.mapError .store) c s₂

/-- An operation that misses nothing has a request to make, and the collection that it goes to. -/
theorem exists_request {c : Session κ η} {op : Operation} (h : c.missing op.kind = []) :
    ∃ coll r, c.collection = some coll ∧ request c op = .ok r := by
  have hpart : ∀ part ∈ op.kind.requires, c.has part = true :=
    fun part hmem => has_of_missing_eq_nil h hmem
  have hneeded : .collection ∈ op.kind.requires := by
    cases op <;> simp [Operation.kind, StepKind.requires]
  obtain ⟨coll, hcoll⟩ := Option.isSome_iff_exists.mp (hpart .collection hneeded)
  refine ⟨coll, ?_⟩
  cases op with
  | find =>
    obtain ⟨filter, hfilter⟩ := Option.isSome_iff_exists.mp (hpart .filter (by decide))
    exact ⟨.find filter, hcoll, by simp only [request, required, hfilter]; rfl⟩
  | remove =>
    obtain ⟨filter, hfilter⟩ := Option.isSome_iff_exists.mp (hpart .filter (by decide))
    exact ⟨.remove filter, hcoll, by simp only [request, required, hfilter]; rfl⟩
  | update =>
    obtain ⟨filter, hfilter⟩ := Option.isSome_iff_exists.mp (hpart .filter (by decide))
    obtain ⟨spec, hspec⟩ := Option.isSome_iff_exists.mp (hpart .updateSpec (by decide))
    obtain ⟨multi, hmulti⟩ := Option.isSome_iff_exists.mp (hpart .updateOptions (by decide))
    exact ⟨.update filter spec multi, hcoll,
      by simp only [request, required, hfilter, hspec, hmulti]; rfl⟩
  | insert document => exact ⟨.insert document, hcoll, rfl⟩

/-- An operation with a request makes it, and hands on what comes back. -/
theorem perform_of_request {d : Driver σ κ η} {op : Operation} {c : Session κ η} {coll : η}
    {r : Request} (hcoll : c.collection = some coll) (hrequest : request c op = .ok r) (s : σ) :
    perform d op c s =
      ((d.perform coll r (debug d Log.documentTarget (requestText op.kind r) s)).1.mapError .store,
        (d.perform coll r (debug d Log.documentTarget (requestText op.kind r) s)).2) := by
  unfold perform
  rw [hcoll, hrequest]
  dsimp only [required]
  rcases d.perform coll r (debug d Log.documentTarget (requestText op.kind r) s) with ⟨_ | _, _⟩
  · rfl
  · rfl

section Drive

variable {d : Driver σ κ η} {steps : List Step} {op : Operation} {s s₁ : σ} {c : Session κ η}

theorem drive_of_halted {e : RunError} (h : Halted d (steps.length + 1) s steps e c s₁) :
    drive d steps (terminal d op) s = (.error e, c, s₁) := by
  unfold drive
  dsimp only
  rw [runSteps_of_halted h]

theorem runSteps_eq_of_passed {total : Nat} (h : Passed d total s steps c s₁) :
    runSteps d total 1 steps .empty s = (.ok (), c, s₁) := by
  have hrun := runSteps_of_passed h []
  rw [List.append_nil] at hrun
  exact hrun

theorem drive_of_unready (h : Passed d (steps.length + 1) s steps c s₁)
    (hmissing : c.missing op.kind ≠ []) :
    drive d steps (terminal d op) s =
      (.error (.precondition op.kind (c.missing op.kind)), c, (validate d c op.kind s₁).2) := by
  unfold drive
  dsimp only
  rw [runSteps_eq_of_passed h]
  rcases validate_cases d c op.kind s₁ with ⟨hready, -⟩ | ⟨-, record, hv⟩
  · exact absurd hready hmissing
  · dsimp only [terminal]
    rw [hv]

theorem drive_of_ready (h : Passed d (steps.length + 1) s steps c s₁)
    (hready : c.missing op.kind = []) {coll : η} {r : Request} (hcoll : c.collection = some coll)
    (hrequest : request c op = .ok r) :
    let asked := d.perform coll r (debug d Log.documentTarget (requestText op.kind r)
      (announce d (steps.length + 1) steps op.kind s₁))
    drive d steps (terminal d op) s = (asked.1.mapError .store, c, asked.2) := by
  unfold drive
  dsimp only
  rw [runSteps_eq_of_passed h]
  rcases validate_cases d c op.kind s₁ with ⟨-, hv⟩ | ⟨hmissing, -⟩
  · dsimp only [terminal]
    rw [hv]
    dsimp only
    rw [perform_of_request hcoll hrequest]
    rfl
  · exact absurd hready hmissing

end Drive

/-- Every run ends in exactly one of these ways. -/
theorem drive_eq_iff (d : Driver σ κ η) (steps : List Step) (op : Operation) (s : σ)
    (outcome : Except RunError Report) (c : Session κ η) (s' : σ) :
    drive d steps (terminal d op) s = (outcome, c, s') ↔ Ended d steps op s outcome c s' := by
  constructor
  · intro h
    rcases passed_or_halted d (steps.length + 1) s steps with
      ⟨c, s₁, hpassed⟩ | ⟨e, c, s₁, hhalted⟩
    · by_cases hmissing : c.missing op.kind = []
      · obtain ⟨coll, r, hcoll, hrequest⟩ := exists_request hmissing
        rw [drive_of_ready hpassed hmissing hcoll hrequest] at h
        cases h
        exact .answered hpassed hmissing hcoll hrequest rfl
      · rw [drive_of_unready hpassed hmissing] at h
        cases h
        exact .unready hpassed hmissing
    · rw [drive_of_halted hhalted] at h
      cases h
      exact .halted hhalted
  · intro h
    cases h with
    | halted hhalted => exact drive_of_halted hhalted
    | unready hpassed hmissing => exact drive_of_unready hpassed hmissing
    | answered hpassed hready hcoll hrequest hcall =>
      rw [drive_of_ready hpassed hready hcoll hrequest, hcall]

/-- What goes before the outcome decides it. -/
theorem run_ended (d : Driver σ κ η) (steps : List Step) (op : Operation) (s : σ) :
    ∃ c s', drive d steps (terminal d op) s = ((run d steps op s).1, c, s') ∧
      Ended d steps op s (run d steps op s).1 c s' :=
  ⟨_, _, rfl, (drive_eq_iff d steps op s _ _ _).mp rfl⟩

/-! ## The request of a run -/

/-- Whether every step of a query is carried out, with nothing missing for its operation then. -/
def Ready (d : Driver σ κ η) (steps : List Step) (op : Operation) (s : σ) : Prop :=
  ∃ c s', Passed d (steps.length + 1) s steps c s' ∧ c.missing op.kind = []

/-- Steps that pass lead to one session and one state. -/
theorem Passed.unique {d : Driver σ κ η} {total : Nat} {s s₁ s₂ : σ} {steps : List Step}
    {c₁ c₂ : Session κ η} (h₁ : Passed d total s steps c₁ s₁) (h₂ : Passed d total s steps c₂ s₂) :
    c₁ = c₂ ∧ s₁ = s₂ := by
  have h := (runSteps_eq_of_passed h₁).symm.trans (runSteps_eq_of_passed h₂)
  cases h
  exact ⟨rfl, rfl⟩

theorem requests_add (r : Recorded σ) (call : Call) (s : σ) :
    (r.add call s).requests = r.requests ++ call.request?.toList := by
  unfold Recorded.requests Recorded.add
  rw [List.reverse_cons, List.filterMap_append]
  cases h : call.request? <;> simp [h]

theorem release_requests (d : Driver σ κ η) (c : Session (Nat × κ) (Nat × η)) (r : Recorded σ) :
    (release d.recording c r).2.requests = r.requests := by
  unfold Recorded.requests
  rw [release_calls]
  cases c.connection <;> simp [Call.request?]

theorem applyServer_requests (d : Driver σ κ η) (uri : String) (c : Session (Nat × κ) (Nat × η))
    (r : Recorded σ) : (applyServer d.recording uri c r).2.2.requests = r.requests := by
  have hvacate : (vacate d.recording c r).2.requests = r.requests := by
    unfold vacate
    split
    · exact release_requests d c _
    · rfl
  rw [applyServer_eq, ← hvacate]
  generalize vacate d.recording c r = vacated
  obtain ⟨c, r⟩ := vacated
  unfold Driver.recording
  dsimp only
  rcases d.connect uri r.inner with ⟨_ | _, s⟩
  · exact (requests_add r _ s).trans (List.append_nil _)
  · exact (requests_add r _ s).trans (List.append_nil _)

/-- No step makes a request. -/
theorem apply_requests (d : Driver σ κ η) (step : Step) (c : Session (Nat × κ) (Nat × η))
    (r : Recorded σ) : (apply d.recording step c r).2.2.requests = r.requests := by
  cases step with
  | server uri => exact applyServer_requests d uri c r
  | collection name =>
    unfold apply
    dsimp only
    split
    · rfl
    · next conn _ =>
      rw [Driver.recording_collection]
      have hadd := (requests_add r (.collection conn.1 name)
        (d.collection conn.2 name r.inner).2).trans (List.append_nil _)
      rcases d.collection conn.2 name r.inner with ⟨_ | _, s⟩
      · exact hadd
      · exact hadd
  | select | negate | assign => rfl
  | compare | among =>
    unfold apply
    dsimp only
    split
    · rfl
    · rfl

theorem runSteps_requests (d : Driver σ κ η) (total n : Nat) (steps : List Step)
    (c : Session (Nat × κ) (Nat × η)) (r : Recorded σ) :
    (runSteps d.recording total n steps c r).2.2.requests = r.requests :=
  runSteps_keeps d.recording (I := fun _ r' => r'.requests = r.requests) (fun _ _ _ h => h)
    (fun step _ c r' _ h => (apply_requests d step c r').trans h) total n c r rfl

/-- What goes before the outcome makes one request if all is ready for it, and else none. -/
theorem drive_requests (d : Driver σ κ η) (steps : List Step) (op : Operation) (s : σ) :
    (Ready d.recording steps op (.start s) ∧ ∃ request,
      (drive d.recording steps (terminal d.recording op) (.start s)).2.2.requests = [request]) ∨
    (¬ Ready d.recording steps op (.start s) ∧
      (drive d.recording steps (terminal d.recording op) (.start s)).2.2.requests = []) := by
  have hnone := runSteps_requests d (steps.length + 1) 1 steps .empty (.start s)
  rcases passed_or_halted d.recording (steps.length + 1) (.start s) steps with
    ⟨c, r, hpassed⟩ | ⟨e, c, r, hhalted⟩
  · rw [runSteps_eq_of_passed hpassed] at hnone
    by_cases hmissing : c.missing op.kind = []
    · obtain ⟨coll, request, hcoll, hrequest⟩ := exists_request hmissing
      refine .inl ⟨⟨c, r, hpassed, hmissing⟩, request, ?_⟩
      rw [drive_of_ready hpassed hmissing hcoll hrequest, Driver.recording_perform]
      refine (requests_add _ _ _).trans ?_
      show r.requests ++ [request] = [request]
      rw [hnone]
      rfl
    · refine .inr ⟨?_, ?_⟩
      · rintro ⟨c', r', hpassed', hready⟩
        obtain ⟨rfl, rfl⟩ := hpassed'.unique hpassed
        exact hmissing hready
      · rw [drive_of_unready hpassed hmissing]
        rcases validate_cases d.recording c op.kind r with ⟨hready, -⟩ | ⟨-, record, hv⟩
        · exact absurd hready hmissing
        · rw [hv]
          exact hnone
  · rw [runSteps_of_halted hhalted] at hnone
    refine .inr ⟨?_, ?_⟩
    · rintro ⟨c', r', hpassed', -⟩
      cases (runSteps_eq_of_passed hpassed').symm.trans (runSteps_of_halted hhalted)
    · rw [drive_of_halted hhalted]
      exact hnone

/-- Nothing that follows the outcome makes a request. -/
theorem run_requests (d : Driver σ κ η) (steps : List Step) (op : Operation) (s : σ) :
    (run d.recording steps op (.start s)).2.requests =
      (drive d.recording steps (terminal d.recording op) (.start s)).2.2.requests := by
  rcases hdrive : drive d.recording steps (terminal d.recording op) (.start s) with ⟨outcome, c, r⟩
  unfold run execute
  rw [hdrive]
  have hnoted := noteOutcome_keeps d.recording (I := fun _ r' => r'.requests = r.requests)
    (fun _ _ _ h => h) (terminal d.recording op).kind outcome (c := c) rfl
  exact (release_requests d _ _).trans hnoted

/-- A run makes at most one request, and makes it exactly if all is ready for it. -/
theorem asks_iff (d : Driver σ κ η) (steps : List Step) (op : Operation) (s : σ) :
    (run d.recording steps op (.start s)).2.requests.length ≤ 1 ∧
      ((run d.recording steps op (.start s)).2.requests ≠ [] ↔
        Ready d.recording steps op (.start s)) := by
  rw [run_requests]
  rcases drive_requests d steps op s with ⟨hready, request, hone⟩ | ⟨hnot, hnone⟩
  · rw [hone]
    simp [hready]
  · rw [hnone]
    simp [hnot]

end DocQuery.Run
