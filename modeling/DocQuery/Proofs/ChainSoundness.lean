import DocQuery.Chain
import DocQuery.Proofs.Preconditions

/-
  Soundness of chains. Each stage stands for parts that are sure to have been established when a
  chain gets there, and each call that a chain offers needs no others. So no chain is ever refused:
  `Finished.run_sound` says that its run can only fail with what a call of the driver fails with.
-/

namespace DocQuery

open Steps

variable {σ κ η : Type}

/-! ## Steps that have all they need -/

/-- Steps each of which finds what it needs, and that establish some parts at least. -/
structure Supplied (steps : List Step) (parts : List SessionPart) : Prop where
  met : ∀ before step after, steps = before ++ step :: after → unmet before step.kind = []
  parts : ∀ part ∈ parts, part ∈ established steps

namespace Supplied

variable {steps : List Step} {parts : List SessionPart}

theorem empty : Supplied [] [] where
  met _ _ _ h := by simp at h
  parts := by simp

/-- A kind of step that needs no other parts misses nothing. -/
theorem unmet_eq_nil (h : Supplied steps parts) {kind : StepKind} (hkind : kind.requires ⊆ parts) :
    unmet steps kind = [] := by
  rw [List.eq_nil_iff_forall_not_mem]
  intro part hpart
  obtain ⟨hneeded, hlacking⟩ := mem_unmet.mp hpart
  exact hlacking (h.parts part (hkind hneeded))

/-- A step that needs no other parts can be added, and adds what it establishes. -/
theorem push (h : Supplied steps parts) (step : Step) (hstep : step.kind.requires ⊆ parts) :
    Supplied (steps ++ [step]) (establish parts step) where
  met := by
    intro before step' after hsteps
    rcases of_append_single_eq hsteps with ⟨rfl, rfl⟩ | ⟨after, hsteps⟩
    · exact h.unmet_eq_nil hstep
    · exact h.met before step' after hsteps
  parts := by
    intro part hpart
    rw [established_append_single]
    cases step with
    | server uri => exact hpart
    | collection | select | negate | compare | among | assign =>
      refine List.mem_append.mpr ((List.mem_append.mp hpart).imp ?_ id)
      exact h.parts part

theorem mono (h : Supplied steps parts) {fewer : List SessionPart} (hfewer : fewer ⊆ parts) :
    Supplied steps fewer :=
  ⟨h.met, fun part hpart => h.parts part (hfewer hpart)⟩

/-- With all needs met, also that of the last act, nothing is ever missing first. -/
theorem not_firstUnmet (h : Supplied steps parts) {last : StepKind} (hlast : last.requires ⊆ parts)
    (kind : StepKind) (missing : List SessionPart) : ¬ FirstUnmet steps last kind missing := by
  intro hfirst
  obtain ⟨before, hplace, hmissing, -⟩ := hfirst.here
  refine hfirst.some (hmissing.trans ?_)
  cases hplace with
  | step hsteps => exact h.met _ _ _ hsteps
  | last => exact h.unmet_eq_nil hlast

end Supplied

/-! ## Stages -/

/-- The parts that a chain has established for sure when it reaches a stage. -/
def Stage.parts : Stage → List SessionPart
  | .unconnected => []
  | .connected => [.connection]
  | .collectionBound => [.connection, .collection]
  | .fieldSelected => [.connection, .collection, .targetField, .negate]
  | .filterReady => [.connection, .collection, .targetField, .negate, .filter]
  | .updateReady =>
    [.connection, .collection, .targetField, .negate, .filter, .updateSpec, .updateOptions]

/-- Whatever the calls that lead to a stage, they have all they need and establish its parts. -/
theorem Chain.supplied {stage : Stage} (c : Chain stage) :
    Supplied c.toQuery.steps stage.parts := by
  induction c with
  | start => exact .empty
  | server c uri ih => exact ih.push (.server uri) (List.nil_subset _)
  | collection c name ih => exact ih.push (.collection name) (List.Subset.refl _)
  | select c field ih => exact ih.push (.select field) (List.Subset.refl _)
  | selectNext c field ih =>
    refine (ih.push (.select field) ?_).mono ?_
    · simp [Step.kind, StepKind.requires, Stage.parts]
    · simp [establish, Stage.parts]
  | negate c ih => exact (ih.push .negate (List.Subset.refl _)).mono (by simp [establish])
  | equal c value ih => exact ih.push (.compare .equal value) (List.Subset.refl _)
  | lessThan c value ih => exact ih.push (.compare .lessThan value) (List.Subset.refl _)
  | greaterThan c value ih => exact ih.push (.compare .greaterThan value) (List.Subset.refl _)
  | among c values ih => exact ih.push (.among values) (List.Subset.refl _)
  | assign c field value ih =>
    refine ih.push (.assign field value) ?_
    simp [Step.kind, StepKind.requires, Stage.parts]
  | assignNext c field value ih =>
    refine (ih.push (.assign field value) ?_).mono ?_
    · simp [Step.kind, StepKind.requires, Stage.parts]
    · simp [establish]

/-! ## Finished chains -/

/-- A chain with the operation that ends it; each operation is there from one stage on. -/
inductive Finished where
  | find (c : Chain .filterReady)
  | remove (c : Chain .filterReady)
  | update (c : Chain .updateReady)
  | insert (c : Chain .collectionBound) (document : Document)

namespace Finished

def run (d : Driver σ κ η) (s : σ) : Finished → Except RunError Report × σ
  | find c => c.find d s
  | remove c => c.remove d s
  | update c => c.update d s
  | insert c document => c.insert document d s

def operation : Finished → Operation
  | find _ => .find
  | remove _ => .remove
  | update _ => .update
  | insert _ document => .insert document

def steps : Finished → List Step
  | find c => c.toQuery.steps
  | remove c => c.toQuery.steps
  | update c => c.toQuery.steps
  | insert c _ => c.toQuery.steps

theorem run_eq (f : Finished) (d : Driver σ κ η) (s : σ) :
    f.run d s = Run.run d f.steps f.operation s := by
  cases f <;> rfl

/-- The operation of a finished chain needs nothing but what its stage stands for. -/
theorem exists_supplied (f : Finished) :
    ∃ parts, Supplied f.steps parts ∧ f.operation.kind.requires ⊆ parts := by
  cases f with
  | find c => exact ⟨_, c.supplied, List.Subset.refl _⟩
  | remove c => exact ⟨_, c.supplied, List.Subset.refl _⟩
  | update c => exact ⟨_, c.supplied, List.Subset.refl _⟩
  | insert c document => exact ⟨_, c.supplied, List.Subset.refl _⟩

/-- What the run of a finished chain may come to: a server that cannot be connected to, a
collection that cannot be had, or the answer of a collection to the request of the operation. -/
inductive Answered (d : Driver σ κ η) (f : Finished) : Except RunError Report → Prop where
  | unconnected {uri : String} {s s' : σ} {e : StoreError} (hstep : .server uri ∈ f.steps)
      (hcall : d.connect uri s = (.error e, s')) : Answered d f (.error (.connect e))
  | uncollected {name : String} {conn : κ} {s s' : σ} {e : StoreError}
      (hstep : .collection name ∈ f.steps) (hcall : d.collection conn name s = (.error e, s')) :
      Answered d f (.error (.store e))
  | refused {c : Session κ η} {coll : η} {r : Request} {s s' : σ} {e : StoreError}
      (hrequest : Run.request c f.operation = .ok r)
      (hcall : d.perform coll r s = (.error e, s')) : Answered d f (.error (.store e))
  | answered {c : Session κ η} {coll : η} {r : Request} {s s' : σ} {report : Report}
      (hrequest : Run.request c f.operation = .ok r)
      (hcall : d.perform coll r s = (.ok report, s')) : Answered d f (.ok report)

/-- No finished chain is refused for a precondition, whatever the driver does. -/
theorem run_ne_precondition (f : Finished) (d : Driver σ κ η) (s : σ) (kind : StepKind)
    (missing : List SessionPart) : (f.run d s).1 ≠ .error (.precondition kind missing) := by
  intro h
  rw [run_eq] at h
  obtain ⟨parts, hsupplied, hoperation⟩ := f.exists_supplied
  exact hsupplied.not_firstUnmet hoperation kind missing (Run.firstUnmet_of_run h)

/-- Soundness: whichever calls of the driver fail, a finished chain ends with the result of its
operation, or with the error of a call. -/
theorem run_sound (f : Finished) (d : Driver σ κ η) (s : σ) :
    (∀ kind missing, (f.run d s).1 ≠ .error (.precondition kind missing)) ∧
      Answered d f (f.run d s).1 := by
  refine ⟨f.run_ne_precondition d s, ?_⟩
  have hnever := f.run_ne_precondition d s
  rw [run_eq] at hnever ⊢
  obtain ⟨c, s', -, hend⟩ := Run.run_ended d f.steps f.operation s
  generalize (Run.run d f.steps f.operation s).1 = outcome at hnever hend ⊢
  cases hend with
  | halted hhalted =>
    cases hhalted with
    | unready => exact absurd rfl (hnever _ _)
    | unconnected hsteps _ hcall => exact .unconnected (by rw [hsteps]; simp) hcall
    | uncollected hsteps _ _ hcall => exact .uncollected (by rw [hsteps]; simp) hcall
  | unready => exact absurd rfl (hnever _ _)
  | @answered _ coll r answer _ _ _ _ _ hrequest hcall =>
    cases answer with
    | error e => exact .refused hrequest hcall
    | ok report => exact .answered hrequest hcall

end Finished
end DocQuery
