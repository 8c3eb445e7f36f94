import DocQuery.Run

/-
  Rules for runs. What the notes of a driver and each single step keep, a whole run keeps, also one
  that is cut short by a failure.
-/

namespace DocQuery.Run

variable {σ κ η α : Type}

/-- A check of preconditions passes, or it fails with all that is missing and is noted. -/
theorem validate_cases (d : Driver σ κ η) (c : Session κ η) (kind : StepKind) (s : σ) :
    (c.missing kind = [] ∧ validate d c kind s = (.ok (), s)) ∨
    (c.missing kind ≠ [] ∧ ∃ record, validate d c kind s =
      (.error (.precondition kind (c.missing kind)), d.note record s)) := by
  unfold validate
  cases hm : c.missing kind with
  | nil => exact .inl ⟨rfl, rfl⟩
  | cons part parts => exact .inr ⟨by simp, _, rfl⟩

theorem required_eq_ok {β : Type} {value : Option β} {kind : StepKind} {part : SessionPart} {b : β} :
    required value kind part = .ok b ↔ value = some b := by
  cases value <;> simp [required]

/-- States that are the same up to notes of a driver. -/
inductive Noted (d : Driver σ κ η) (s : σ) : σ → Prop where
  | refl : Noted d s s
  | note {s' : σ} (record : Log.Record) (h : Noted d s s') : Noted d s (d.note record s')

theorem Noted.keeps {d : Driver σ κ η} {s s' : σ} (h : Noted d s s') {P : σ → Prop}
    (hnote : ∀ record s, P s → P (d.note record s)) (hs : P s) : P s' := by
  induction h with
  | refl => exact hs
  | note record _ ih => exact hnote record _ ih

theorem Noted.trans {d : Driver σ κ η} {s s' s'' : σ} (h : Noted d s s') (h' : Noted d s' s'') :
    Noted d s s'' := by
  induction h' with
  | refl => exact h
  | note record _ ih => exact ih.note record

/-- A step whose preconditions hold and which succeeds hands on to the rest. -/
theorem runSteps_cons (d : Driver σ κ η) (total n : Nat) {step : Step} (rest : List Step)
    {c c' : Session κ η} {s s' : σ} (hm : c.missing step.kind = [])
    (ha : apply d step c (trace d (placeText n total step.kind) s) = (.ok (), c', s')) :
    runSteps d total n (step :: rest) c s = runSteps d total (n + 1) rest c' s' := by
  have hv : validate d c step.kind s = (.ok (), s) := by
    rcases validate_cases d c step.kind s with ⟨-, hv⟩ | ⟨hne, -⟩
    · exact hv
    · exact absurd hm hne
  rw [runSteps, hv]
  simp only [ha]

section Induction

variable (d : Driver σ κ η) {I : Session κ η → σ → Prop}

/-- What notes and the single steps of a list keep, the list keeps, wherever it ends. -/
theorem runSteps_keeps (hnote : ∀ record c s, I c s → I c (d.note record s)) {steps : List Step}
    (hstep : ∀ step ∈ steps, ∀ c s, c.missing step.kind = [] → I c s →
      I (apply d step c s).2.1 (apply d step c s).2.2)
    (total n : Nat) (c : Session κ η) (s : σ) (h : I c s) :
    I (runSteps d total n steps c s).2.1 (runSteps d total n steps c s).2.2 := by
  induction steps generalizing n c s with
  | nil => exact h
  | cons step rest ih =>
    have hrest := ih fun step' hstep' => hstep step' (List.mem_cons_of_mem _ hstep')
    unfold runSteps
    rcases validate_cases d c step.kind s with ⟨hm, hv⟩ | ⟨-, record, hv⟩
    · rw [hv]
      have hnext := hstep step List.mem_cons_self c (trace d (placeText n total step.kind) s) hm
        (hnote _ c s h)
      dsimp only
      split
      · next hrun => rw [hrun] at hnext; exact hnext
      · next hrun => rw [hrun] at hnext; exact hrest _ _ _ hnext
    · rw [hv]
      exact hnote record c s h

/-- What notes, single steps and the last act keep, all that goes before the outcome keeps. -/
theorem drive_keeps (hnote : ∀ record c s, I c s → I c (d.note record s))
    (hstep : ∀ step c s, c.missing step.kind = [] → I c s →
      I (apply d step c s).2.1 (apply d step c s).2.2)
    (t : Terminal σ κ η α) (hlast : ∀ c s, I c s → I c (t.run c s).2)
    (steps : List Step) (s : σ) (h : I .empty s) :
    I (drive d steps t s).2.1 (drive d steps t s).2.2 := by
  have hall := runSteps_keeps d hnote (fun step (_ : step ∈ steps) => hstep step) (steps.length + 1)
    1 .empty s h
  unfold drive
  dsimp only
  split
  · next hrun => rw [hrun] at hall; exact hall
  · next c s' hrun =>
    rw [hrun] at hall
    rcases validate_cases d c t.kind s' with ⟨-, hv⟩ | ⟨-, record, hv⟩
    · rw [hv]; exact hlast c _ (hnote _ c s' hall)
    · rw [hv]; exact hnote record c s' hall

theorem noteOutcome_keeps (hnote : ∀ record c s, I c s → I c (d.note record s)) {c : Session κ η}
    {s : σ} (kind : StepKind) (outcome : Except RunError α) (h : I c s) :
    I c (noteOutcome d kind c outcome s) := by
  cases outcome with
  | ok a => exact hnote _ c s h
  | error e => exact hnote _ c s h

end Induction

section Outcome

variable {d : Driver σ κ η} {P : σ → Prop} (hnote : ∀ record s, P s → P (d.note record s))
  (hclose : ∀ conn s, P s → P (d.close conn s).2)
include hnote hclose

/-- What notes and closing keep, giving the connection back keeps. -/
theorem release_keeps (c : Session κ η) {s : σ} (h : P s) : P (release d c s).2 := by
  unfold release
  cases c.connection with
  | none => exact h
  | some conn =>
    have hclosed := hclose conn s h
    dsimp only
    split
    · next he => rw [he] at hclosed; exact hclosed
    · next he => rw [he] at hclosed; exact hnote _ _ hclosed

/-- What goes before the outcome decides it, and what they keep of the state then, a whole run
keeps. -/
theorem run_keeps (steps : List Step) (op : Operation) (s : σ)
    (h : P (drive d steps (terminal d op) s).2.2) :
    (run d steps op s).1 = (drive d steps (terminal d op) s).1 ∧ P (run d steps op s).2 := by
  rcases hdrive : drive d steps (terminal d op) s with ⟨outcome, c, s'⟩
  rw [hdrive] at h
  have hnoted := noteOutcome_keeps d (I := fun _ s => P s) (fun record _ s => hnote record s)
    (terminal d op).kind outcome (c := c) h
  unfold run execute
  rw [hdrive]
  exact ⟨rfl, hnote _ _ (release_keeps hnote hclose _ hnoted)⟩

end Outcome

end DocQuery.Run
