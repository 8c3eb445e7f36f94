import DocQuery.Proofs.Endings

/-
  Two runs of the same steps side by side, over two drivers or over one driver in two states. What a
  run does hangs on a driver in few places: what connecting, taking a collection and a request
  answer. Where these agree (`Lockstep`), so do the runs: each step ends alike and leaves sessions
  that differ only in what the drivers have handed out (`apply_beside`), and by induction whole runs
  do (`runSteps_beside`, `drive_beside`). How many notes either driver takes does not matter.

  Recording one of the drivers changes none of this (`Lockstep.recording`), and so the request that
  a run makes can be read off the run itself (`run_requests_eq`).
-/

namespace DocQuery

namespace Session

variable {κ η κ' η' : Type}

/-- What the steps have set, with no more of a connection and a collection than whether they are
there. -/
def forget (c : Session κ η) : Session Unit Unit :=
  ⟨c.connection.map fun _ => (), c.collection.map fun _ => (), c.targetField, c.negate, c.filter,
    c.updateSpec, c.multi, c.succeeded⟩

theorem missing_forget (c : Session κ η) (kind : StepKind) :
    c.forget.missing kind = c.missing kind := by
  have hhas : ∀ part, c.forget.has part = c.has part := by
    intro part
    cases part with
    | connection => exact Option.isSome_map
    | collection => exact Option.isSome_map
    | targetField | negate | filter | updateSpec | updateOptions => rfl
  unfold missing
  simp only [hhas]

theorem missing_congr {c : Session κ η} {c' : Session κ' η'} (h : c.forget = c'.forget)
    (kind : StepKind) : c.missing kind = c'.missing kind := by
  rw [← missing_forget c, h, missing_forget c']

/-- Of what two sessions may hold, both hold something or neither does. -/
theorem both_or_neither {α β : Type} {x : Option α} {y : Option β}
    (h : x.map (fun _ => ()) = y.map fun _ => ()) :
    (x = none ∧ y = none) ∨ ∃ a b, x = some a ∧ y = some b := by
  cases x with
  | none =>
    cases y with
    | none => exact .inl ⟨rfl, rfl⟩
    | some b => cases h
  | some a =>
    cases y with
    | none => cases h
    | some b => exact .inr ⟨a, b, rfl, rfl⟩

theorem connection_cases {c : Session κ η} {c' : Session κ' η'} (h : c.forget = c'.forget) :
    (c.connection = none ∧ c'.connection = none) ∨
    ∃ k k', c.connection = some k ∧ c'.connection = some k' :=
  both_or_neither (congrArg Session.connection h)

theorem collection_cases {c : Session κ η} {c' : Session κ' η'} (h : c.forget = c'.forget) :
    (c.collection = none ∧ c'.collection = none) ∨
    ∃ coll coll', c.collection = some coll ∧ c'.collection = some coll' :=
  both_or_neither (congrArg Session.collection h)

end Session

namespace Run

variable {σ κ η σ' κ' η' : Type}

/-- What a run holds of a driver, and the state that the driver is in. -/
structure Held (σ κ η : Type) where
  connection : Option κ
  collection : Option η
  state : σ

/-- Calls to two drivers that answer alike: with the same error, or both with something. -/
inductive Answered {α β : Type} (failed : σ → σ' → Prop) (answered : α → σ → β → σ' → Prop) :
    Except StoreError α × σ → Except StoreError β × σ' → Prop where
  | error {s : σ} {s' : σ'} (e : StoreError) (h : failed s s') :
      Answered failed answered (.error e, s) (.error e, s')
  | ok {a : α} {b : β} {s : σ} {s' : σ'} (h : answered a s b s') :
      Answered failed answered (.ok a, s) (.ok b, s')

/-- Two drivers, and a relation between what runs hold of them under which no call that the runs can
make tells them apart. Only some connection strings need to be considered. -/
structure Lockstep (d : Driver σ κ η) (d' : Driver σ' κ' η') (uris : String → Prop)
    (R : Held σ κ η → Held σ' κ' η' → Prop) : Prop where
  noteLeft {a : Held σ κ η} {b : Held σ' κ' η'} (record : Log.Record) (h : R a b) :
    R { a with state := d.note record a.state } b
  noteRight {a : Held σ κ η} {b : Held σ' κ' η'} (record : Log.Record) (h : R a b) :
    R a { b with state := d'.note record b.state }
  close {k : κ} {k' : κ'} {coll : Option η} {coll' : Option η'} {s : σ} {s' : σ'}
    (h : R ⟨some k, coll, s⟩ ⟨some k', coll', s'⟩) :
    R ⟨none, none, (d.close k s).2⟩ ⟨none, none, (d'.close k' s').2⟩
  connect {uri : String} (huri : uris uri) {coll : Option η} {coll' : Option η'} {s : σ} {s' : σ'}
    (h : R ⟨none, coll, s⟩ ⟨none, coll', s'⟩) :
    Answered (fun s s' => R ⟨none, coll, s⟩ ⟨none, coll', s'⟩)
      (fun k s k' s' => R ⟨some k, coll, s⟩ ⟨some k', coll', s'⟩) (d.connect uri s)
      (d'.connect uri s')
  collection {k : κ} {k' : κ'} {coll : Option η} {coll' : Option η'} {s : σ} {s' : σ'}
    (h : R ⟨some k, coll, s⟩ ⟨some k', coll', s'⟩) (name : String) :
    Answered (fun s s' => R ⟨some k, coll, s⟩ ⟨some k', coll', s'⟩)
      (fun coll s coll' s' => R ⟨some k, some coll, s⟩ ⟨some k', some coll', s'⟩)
      (d.collection k name s) (d'.collection k' name s')
  perform {conn : Option κ} {conn' : Option κ'} {coll : η} {coll' : η'} {s : σ} {s' : σ'}
    (h : R ⟨conn, some coll, s⟩ ⟨conn', some coll', s'⟩) (r : Request) :
    (d.perform coll r s).1 = (d'.perform coll' r s').1 ∧
      R ⟨conn, some coll, (d.perform coll r s).2⟩ ⟨conn', some coll', (d'.perform coll' r s').2⟩

/-- Two runs that have come equally far: their sessions agree, and what they hold is related. -/
structure Beside (R : Held σ κ η → Held σ' κ' η' → Prop) (c : Session κ η) (s : σ)
    (c' : Session κ' η') (s' : σ') : Prop where
  session : c.forget = c'.forget
  held : R ⟨c.connection, c.collection, s⟩ ⟨c'.connection, c'.collection, s'⟩

/-- Steps that end alike on both sides: with the same outcome, beside one another. -/
structure EndsAlike {α : Type} (R : Held σ κ η → Held σ' κ' η' → Prop)
    (x : Except RunError α × Session κ η × σ) (y : Except RunError α × Session κ' η' × σ') :
    Prop where
  outcome : x.1 = y.1
  beside : Beside R x.2.1 x.2.2 y.2.1 y.2.2

section Lockstep

variable {d : Driver σ κ η} {d' : Driver σ' κ' η'} {uris : String → Prop}
  {R : Held σ κ η → Held σ' κ' η' → Prop} (hd : Lockstep d d' uris R)
  {c : Session κ η} {s t : σ} {c' : Session κ' η'} {s' t' : σ'}
include hd

/-- Either driver may take notes. -/
theorem held_noted {conn : Option κ} {coll : Option η} {conn' : Option κ'} {coll' : Option η'}
    (h : R ⟨conn, coll, s⟩ ⟨conn', coll', s'⟩) (hs : Noted d s t) (hs' : Noted d' s' t') :
    R ⟨conn, coll, t⟩ ⟨conn', coll', t'⟩ := by
  have hleft : R ⟨conn, coll, t⟩ ⟨conn', coll', s'⟩ :=
    hs.keeps (P := fun t => R ⟨conn, coll, t⟩ ⟨conn', coll', s'⟩)
      (fun record _ h => hd.noteLeft record h) h
  exact hs'.keeps (P := fun t' => R ⟨conn, coll, t⟩ ⟨conn', coll', t'⟩)
    (fun record _ h => hd.noteRight record h) hleft

theorem Beside.noted (h : Beside R c s c' s') (hs : Noted d s t) (hs' : Noted d' s' t') :
    Beside R c t c' t' := ⟨h.session, held_noted hd h.held hs hs'⟩

theorem validate_beside (h : Beside R c s c' s') (kind : StepKind) :
    (validate d c kind s).1 = (validate d' c' kind s').1 ∧
      Beside R c (validate d c kind s).2 c' (validate d' c' kind s').2 := by
  have hmissing := Session.missing_congr h.session kind
  rcases validate_cases d c kind s with ⟨hm, hv⟩ | ⟨hm, record, hv⟩
  · rcases validate_cases d' c' kind s' with ⟨-, hv'⟩ | ⟨hm', -⟩
    · rw [hv, hv']
      exact ⟨rfl, h⟩
    · exact absurd (hmissing ▸ hm) hm'
  · rcases validate_cases d' c' kind s' with ⟨hm', -⟩ | ⟨-, record', hv'⟩
    · exact absurd (hmissing.trans hm') hm
    · rw [hv, hv', hmissing]
      exact ⟨rfl, h.noted hd (Noted.refl.note record) (Noted.refl.note record')⟩

/-! ## Steps -/

omit hd in
theorem release_noted (d : Driver σ κ η) (s : σ) {k : κ} (h : c.connection = some k) :
    Noted d (d.close k s).2 (release d c s).2 := by
  unfold release
  rw [h]
  dsimp only
  rcases d.close k s with ⟨e | ⟨⟩, t⟩
  · exact Noted.refl.note _
  · exact Noted.refl

/-- Both runs close what they hold, or there is nothing to close. -/
theorem vacate_beside (h : Beside R c s c' s') :
    (vacate d c s).1.connection = none ∧ (vacate d' c' s').1.connection = none ∧
      Beside R (vacate d c s).1 (vacate d c s).2 (vacate d' c' s').1 (vacate d' c' s').2 := by
  unfold vacate
  rcases Session.connection_cases h.session with ⟨hk, hk'⟩ | ⟨k, k', hk, hk'⟩
  · rw [hk, hk']
    exact ⟨hk, hk', h⟩
  · rw [hk, hk']
    have hwarned := h.noted hd (Noted.refl.note ⟨.warn, Log.stepTarget,
        "`server` called twice in one chain; closing the earlier connection"⟩)
      (Noted.refl.note ⟨.warn, Log.stepTarget,
        "`server` called twice in one chain; closing the earlier connection"⟩)
    have hheld := hwarned.held
    rw [hk, hk'] at hheld
    exact ⟨rfl, rfl, rfl, held_noted hd (hd.close hheld) (release_noted d _ hk)
      (release_noted d' _ hk')⟩

/-- A server connects alike from sessions that stand beside one another once they are vacated. -/
theorem applyServer_beside {uri : String} (huri : uris uri)
    (hconn : (vacate d c s).1.connection = none) (hconn' : (vacate d' c' s').1.connection = none)
    (h : Beside R (vacate d c s).1 (vacate d c s).2 (vacate d' c' s').1 (vacate d' c' s').2) :
    EndsAlike R (applyServer d uri c s) (applyServer d' uri c' s') := by
  rw [applyServer_eq, applyServer_eq]
  have hheld := h.held
  rw [hconn, hconn'] at hheld
  have hanswered := hd.connect huri hheld
  generalize d.connect uri (vacate d c s).2 = out, d'.connect uri (vacate d' c' s').2 = out'
    at hanswered
  cases hanswered with
  | error e hfailed =>
    refine ⟨rfl, h.session, ?_⟩
    rw [hconn, hconn']
    exact hfailed
  | ok hopened =>
    have hsession : ∀ (k : κ) (k' : κ'),
        Session.forget { (vacate d c s).1 with connection := some k } =
          Session.forget { (vacate d' c' s').1 with connection := some k' } := fun k k' =>
      congrArg (fun c : Session Unit Unit => { c with connection := some () }) h.session
    exact ⟨rfl, hsession _ _, hopened⟩

omit hd in
/-- What steps set in a session they set on both sides. -/
theorem Beside.edit (h : Beside R c s c' s') (f : Session Unit Unit → Session Unit Unit)
    {e : Session κ η} {e' : Session κ' η'} (he : e.forget = f c.forget)
    (he' : e'.forget = f c'.forget)
    (hheld : e.connection = c.connection ∧ e.collection = c.collection)
    (hheld' : e'.connection = c'.connection ∧ e'.collection = c'.collection) :
    Beside R e s e' s' := by
  refine ⟨?_, ?_⟩
  · rw [he, he', h.session]
  · rw [hheld.1, hheld.2, hheld'.1, hheld'.2]
    exact h.held

omit hd in
/-- A clause is added on both sides, or on neither. -/
theorem addClause_beside (h : Beside R c s c' s') (kind : StepKind)
    (fragment : String → Bool → Document) :
    (∃ e, addClause c kind fragment = .error e ∧ addClause c' kind fragment = .error e) ∨
    ∃ e e', addClause c kind fragment = .ok e ∧ addClause c' kind fragment = .ok e' ∧
      Beside R e s e' s' := by
  have hfield : c.targetField = c'.targetField := congrArg Session.targetField h.session
  unfold addClause
  rw [hfield]
  cases c'.targetField with
  | none => exact .inl ⟨_, rfl, rfl⟩
  | some field =>
    exact .inr ⟨_, _, rfl, rfl, h.edit
      (fun c => { c with
        targetField := some field
        filter := some (Fragment.conjoin c.filter (fragment field c.negated)) })
      rfl rfl ⟨rfl, rfl⟩ ⟨rfl, rfl⟩⟩

/-- A step ends alike on both sides. -/
theorem apply_beside (h : Beside R c s c' s') {step : Step}
    (huri : ∀ uri, step = .server uri → uris uri) :
    EndsAlike R (apply d step c s) (apply d' step c' s') := by
  cases step with
  | server uri =>
    obtain ⟨hconn, hconn', hvacated⟩ := vacate_beside hd h
    exact applyServer_beside hd (huri uri rfl) hconn hconn' hvacated
  | collection name =>
    unfold apply required
    rcases Session.connection_cases h.session with ⟨hk, hk'⟩ | ⟨k, k', hk, hk'⟩
    · rw [hk, hk']
      exact ⟨rfl, h⟩
    · rw [hk, hk']
      dsimp only
      have hheld := h.held
      rw [hk, hk'] at hheld
      have hanswered := hd.collection hheld name
      generalize d.collection k name s = out, d'.collection k' name s' = out' at hanswered
      cases hanswered with
      | error e hfailed =>
        refine ⟨rfl, h.session, ?_⟩
        rw [hk, hk']
        exact hfailed
      | ok htaken =>
        exact ⟨rfl, congrArg (fun c : Session Unit Unit =>
          { c with connection := some (), collection := some () }) h.session, htaken⟩
  | select field =>
    exact ⟨rfl, h.edit (fun c => { c with targetField := some field, negate := some false }) rfl rfl
      ⟨rfl, rfl⟩ ⟨rfl, rfl⟩⟩
  | negate =>
    exact ⟨rfl, h.edit (fun c => { c with negate := some true }) rfl rfl ⟨rfl, rfl⟩ ⟨rfl, rfl⟩⟩
  | compare | among =>
    unfold apply
    dsimp only
    rcases addClause_beside h _ _ with ⟨e, hadd, hadd'⟩ | ⟨e, e', hadd, hadd', hnext⟩
    · rw [hadd, hadd']
      exact ⟨rfl, h⟩
    · rw [hadd, hadd']
      exact ⟨rfl, hnext⟩
  | assign field value =>
    exact ⟨rfl, h.edit (fun c => { c with
        updateSpec := some (Fragment.assign c.updateSpec field value), multi := some true })
      rfl rfl ⟨rfl, rfl⟩ ⟨rfl, rfl⟩⟩

/-! ## Runs -/

omit hd in
/-- Behind a step that ends alike, the others decide. -/
theorem runSteps_cons_alike {step : Step} {rest : List Step} {total n total' n' : Nat}
    (hready : c.missing step.kind = []) (hready' : c'.missing step.kind = [])
    (hstep : EndsAlike R (apply d step c (trace d (placeText n total step.kind) s))
      (apply d' step c' (trace d' (placeText n' total' step.kind) s')))
    (hrest : ∀ {c s c' s'}, Beside R c s c' s' →
      EndsAlike R (runSteps d total (n + 1) rest c s) (runSteps d' total' (n' + 1) rest c' s')) :
    EndsAlike R (runSteps d total n (step :: rest) c s)
      (runSteps d' total' n' (step :: rest) c' s') := by
  rcases validate_cases d c step.kind s with ⟨-, hv⟩ | ⟨hmissing, -⟩
  · rcases validate_cases d' c' step.kind s' with ⟨-, hv'⟩ | ⟨hmissing', -⟩
    · unfold runSteps
      rw [hv, hv']
      dsimp only
      generalize apply d step c _ = left, apply d' step c' _ = right at hstep
      obtain ⟨out, c₁, s₁⟩ := left
      obtain ⟨out', c₁', s₁'⟩ := right
      obtain rfl : out = out' := hstep.outcome
      cases out with
      | error e => exact ⟨rfl, hstep.beside⟩
      | ok u => exact hrest hstep.beside
    · exact absurd hready' hmissing'
  · exact absurd hready hmissing

/-- Steps end alike on both sides, wherever they do. -/
theorem runSteps_beside {steps : List Step} (huris : ∀ uri, .server uri ∈ steps → uris uri)
    (total n total' n' : Nat) (h : Beside R c s c' s') :
    EndsAlike R (runSteps d total n steps c s) (runSteps d' total' n' steps c' s') := by
  induction steps generalizing n n' c s c' s' with
  | nil => exact ⟨rfl, h⟩
  | cons step rest ih =>
    have hmissing := Session.missing_congr h.session step.kind
    by_cases hready : c.missing step.kind = []
    · refine runSteps_cons_alike hready (hmissing.symm.trans hready) ?_
        (ih (fun uri huri => huris uri (List.mem_cons_of_mem _ huri)) _ _)
      exact apply_beside hd (h.noted hd (Noted.refl.note _) (Noted.refl.note _))
        fun uri huri => huris uri (huri ▸ List.mem_cons_self)
    · obtain ⟨hv, hvalid⟩ := validate_beside hd h step.kind
      unfold runSteps
      rcases validate_cases d c step.kind s with ⟨hready', -⟩ | ⟨-, record, hleft⟩
      · exact absurd hready' hready
      · generalize validate d' c' step.kind s' = right at hv hvalid
        obtain ⟨out, s₁'⟩ := right
        rw [hleft] at hv hvalid ⊢
        obtain rfl : _ = out := hv
        exact ⟨rfl, hvalid⟩

/-- Behind a server it does not matter what the sessions have been, as long as it finds the same. -/
theorem runSteps_server_beside {uri : String} {rest : List Step}
    (huris : ∀ uri', .server uri' ∈ .server uri :: rest → uris uri') {total n total' n' : Nat}
    (hvacated : vacate d c (trace d (placeText n total (Step.server uri).kind) s) = (.empty, t))
    (hvacated' :
      vacate d' c' (trace d' (placeText n' total' (Step.server uri).kind) s') = (.empty, t'))
    (h : R ⟨none, none, t⟩ ⟨none, none, t'⟩) :
    EndsAlike R (runSteps d total n (.server uri :: rest) c s)
      (runSteps d' total' n' (.server uri :: rest) c' s') := by
  refine runSteps_cons_alike rfl rfl ?_
    (runSteps_beside hd (fun uri' huri => huris uri' (List.mem_cons_of_mem _ huri)) _ _ _ _)
  refine applyServer_beside hd (huris uri List.mem_cons_self) ?_ ?_ ?_
  · rw [hvacated]
    rfl
  · rw [hvacated']
    rfl
  · rw [hvacated, hvacated']
    exact ⟨rfl, h⟩

omit hd in
theorem request_congr (h : c.forget = c'.forget) (op : Operation) :
    request c op = request c' op := by
  have hforget : ∀ {κ η : Type} (c : Session κ η), request c.forget op = request c op := by
    intro κ η c
    cases op <;> rfl
  rw [← hforget c, h, hforget c']

/-- An operation is answered alike on both sides. -/
theorem perform_beside (h : Beside R c s c' s') (op : Operation) :
    (perform d op c s).1 = (perform d' op c' s').1 ∧
      Beside R c (perform d op c s).2 c' (perform d' op c' s').2 := by
  unfold perform
  rw [request_congr h.session op]
  rcases Session.collection_cases h.session with ⟨hcoll, hcoll'⟩ | ⟨coll, coll', hcoll, hcoll'⟩
  · rw [hcoll, hcoll']
    exact ⟨rfl, h⟩
  · cases request c' op with
    | error e =>
      rw [hcoll, hcoll']
      exact ⟨rfl, h⟩
    | ok r =>
      have hasked := h.noted hd
        (Noted.refl.note ⟨.debug, Log.documentTarget, requestText op.kind r⟩)
        (Noted.refl.note ⟨.debug, Log.documentTarget, requestText op.kind r⟩)
      have hheld := hasked.held
      rw [hcoll, hcoll'] at hheld
      obtain ⟨hanswer, hnext⟩ := hd.perform hheld r
      rw [hcoll, hcoll']
      unfold debug
      dsimp only [required]
      generalize d.perform coll r _ = left, d'.perform coll' r _ = right at hanswer hnext
      obtain ⟨out, s₁⟩ := left
      obtain ⟨out', s₁'⟩ := right
      obtain rfl : out = out' := hanswer
      rw [← hcoll, ← hcoll'] at hnext
      cases out with
      | error e => exact ⟨rfl, h.session, hnext⟩
      | ok report => exact ⟨rfl, h.session, hnext⟩

/-- Behind steps that end alike, the last act does. They need not be the same steps. -/
theorem drive_beside {steps steps' : List Step}
    (h : EndsAlike R (runSteps d (steps.length + 1) 1 steps .empty s)
      (runSteps d' (steps'.length + 1) 1 steps' .empty s')) (op : Operation) :
    EndsAlike R (drive d steps (terminal d op) s) (drive d' steps' (terminal d' op) s') := by
  unfold drive terminal
  dsimp only
  generalize runSteps d (steps.length + 1) 1 steps .empty s = left,
    runSteps d' (steps'.length + 1) 1 steps' .empty s' = right at h
  obtain ⟨out, c, s⟩ := left
  obtain ⟨out', c', s'⟩ := right
  obtain rfl : out = out' := h.outcome
  cases out with
  | error e => exact ⟨rfl, h.beside⟩
  | ok u =>
    obtain ⟨hv, hvalid⟩ := validate_beside hd h.beside op.kind
    dsimp only at hv hvalid ⊢
    generalize validate d c op.kind s = left, validate d' c' op.kind s' = right at hv hvalid
    obtain ⟨out, s₁⟩ := left
    obtain ⟨out', s₁'⟩ := right
    obtain rfl : out = out' := hv
    cases out with
    | error e => exact ⟨rfl, hvalid⟩
    | ok u =>
      obtain ⟨hanswer, hnext⟩ :=
        perform_beside hd (hvalid.noted hd (Noted.refl.note _) (Noted.refl.note _)) op
      exact ⟨hanswer, hnext⟩

end Lockstep

/-! ## Recordings -/

/-- What a recorded run holds, without the record. -/
def Held.plain (b : Held (Recorded σ) (Nat × κ) (Nat × η)) : Held σ κ η :=
  ⟨b.connection.map Prod.snd, b.collection.map Prod.snd, b.state.inner⟩

/-- Recording one of two drivers does not tell them apart. -/
theorem Lockstep.recording {d : Driver σ κ η} {d' : Driver σ' κ' η'} {uris : String → Prop}
    {R : Held σ κ η → Held σ' κ' η' → Prop} (hd : Lockstep d d' uris R) :
    Lockstep d d'.recording uris fun a b => R a b.plain where
  noteLeft record h := hd.noteLeft record h
  noteRight record h := hd.noteRight record h
  close h := hd.close h
  connect {uri} huri {coll} {coll'} {s} {r} h := by
    have hanswered := hd.connect huri h
    unfold Driver.recording
    dsimp only [Held.plain] at hanswered ⊢
    generalize d.connect uri s = left, d'.connect uri r.inner = right at hanswered
    cases hanswered with
    | error e hfailed => exact .error e hfailed
    | ok hopened => exact .ok hopened
  collection {k} {k'} {coll} {coll'} {s} {r} h name := by
    have hanswered := hd.collection h name
    rw [Driver.recording_collection]
    generalize d.collection k name s = left at hanswered
    generalize hright : d'.collection k'.2 name r.inner = right at hanswered
    cases hanswered with
    | error e hfailed => exact .error e hfailed
    | ok htaken => exact .ok htaken
  perform h r := hd.perform h r

/-- What a run asks for, read off the run itself: what its operation makes of the session behind the
steps, if nothing is missing there. -/
def asked (d : Driver σ κ η) (steps : List Step) (op : Operation) (s : σ) : List Request :=
  match runSteps d (steps.length + 1) 1 steps .empty s with
  | (.error _, _, _) => []
  | (.ok (), c, _) => if c.missing op.kind = [] then (request c op).toOption.toList else []

/-- Behind steps that end alike the same is asked for. -/
theorem asked_congr {d : Driver σ κ η} {d' : Driver σ' κ' η'}
    {R : Held σ κ η → Held σ' κ' η' → Prop} {steps steps' : List Step} {s : σ} {s' : σ'}
    (h : EndsAlike R (runSteps d (steps.length + 1) 1 steps .empty s)
      (runSteps d' (steps'.length + 1) 1 steps' .empty s')) (op : Operation) :
    asked d steps op s = asked d' steps' op s' := by
  unfold asked
  generalize runSteps d (steps.length + 1) 1 steps .empty s = left,
    runSteps d' (steps'.length + 1) 1 steps' .empty s' = right at h
  obtain ⟨out, c, s⟩ := left
  obtain ⟨out', c', s'⟩ := right
  obtain rfl : out = out' := h.outcome
  have hsession : c.forget = c'.forget := h.beside.session
  cases out with
  | error e => rfl
  | ok u =>
    dsimp only
    rw [Session.missing_congr hsession, request_congr hsession]

/-- The recorded requests are what the run asks for. -/
theorem run_requests_eq {d : Driver σ κ η} {uris : String → Prop}
    {R : Held σ κ η → Held σ κ η → Prop} (hd : Lockstep d d uris R) {steps : List Step}
    (huris : ∀ uri, .server uri ∈ steps → uris uri) {s : σ}
    (hstart : R ⟨none, none, s⟩ ⟨none, none, s⟩) (op : Operation) :
    (run d.recording steps op (.start s)).2.requests = asked d steps op s := by
  have hbegun : Beside (fun a b => R a b.plain) .empty s
      (.empty : Session (Nat × κ) (Nat × η)) (.start s) := ⟨rfl, hstart⟩
  obtain ⟨hends, hbeside⟩ := runSteps_beside hd.recording huris (steps.length + 1) 1
    (steps.length + 1) 1 hbegun
  have hnone := runSteps_requests d (steps.length + 1) 1 steps .empty (.start s)
  rw [run_requests]
  unfold asked
  rcases passed_or_halted d.recording (steps.length + 1) (.start s) steps with
    ⟨c', r, hpassed⟩ | ⟨e, c', r, hhalted⟩
  · rw [runSteps_eq_of_passed hpassed] at hends hbeside hnone
    rcases hrun : runSteps d (steps.length + 1) 1 steps .empty s with ⟨out, c, t⟩
    rw [hrun] at hends hbeside
    obtain rfl : out = .ok () := hends
    have hsession : c.forget = c'.forget := hbeside.session
    dsimp only
    rw [Session.missing_congr hsession, request_congr hsession]
    split
    · next hready =>
      obtain ⟨coll, request, hcoll, hrequest⟩ := exists_request hready
      rw [drive_of_ready hpassed hready hcoll hrequest, Driver.recording_perform, hrequest]
      refine (requests_add _ _ _).trans ?_
      show r.requests ++ [request] = [request]
      rw [hnone]
      rfl
    · next hmissing =>
      rw [drive_of_unready hpassed hmissing]
      rcases validate_cases d.recording c' op.kind r with ⟨hready, -⟩ | ⟨-, record, hv⟩
      · exact absurd hready hmissing
      · rw [hv]
        exact hnone
  · rw [runSteps_of_halted hhalted] at hends hnone
    rcases hrun : runSteps d (steps.length + 1) 1 steps .empty s with ⟨out, c, t⟩
    rw [hrun] at hends
    obtain rfl : out = .error e := hends
    rw [drive_of_halted hhalted]
    exact hnone

end Run
end DocQuery
