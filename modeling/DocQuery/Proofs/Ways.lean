import DocQuery.FileTree
import DocQuery.Proofs.CollectionLines

/-
  Ways through a tree of files. A path is walked from directory to directory and through links, so
  where it leads depends only on the directories and links that it goes through: in a tree that
  keeps them it leads to the same directory (`walk_kept`), and once the directories along a path
  have been made, no more are made for it (`makeDirectories_kept`). What has been made is what the
  path resolves to, an absolute path of proper names.
-/

namespace DocQuery.FileTree

/-- Every directory and every link of a tree is still there in another. -/
def Keeps (t t' : FileTree) : Prop :=
  ∀ p e, t.get? p = some e → e.isWay = true → t'.get? p = some e

section Keeps

variable {t t₁ t' : FileTree}

theorem Keeps.refl (t : FileTree) : Keeps t t := fun _ _ h _ => h

theorem Keeps.trans (h : Keeps t t₁) (h' : Keeps t₁ t') : Keeps t t' :=
  fun p e he hway => h' p e (h p e he hway) hway

theorem Keeps.directory (h : Keeps t t') {p : Path} (hp : t.get? p = some .directory) :
    t'.get? p = some .directory := h p _ hp rfl

theorem Keeps.link (h : Keeps t t') {p : Path} {link : Link} (hp : t.get? p = some (.link link)) :
    t'.get? p = some (.link link) := h p _ hp rfl

/-- An entry where there was none takes the place of no other. -/
theorem keeps_insert {p : Path} (h : t.get? p = none) (entry : Entry) :
    Keeps t (t.insert p entry) := by
  intro q e hq _
  have hne : q ≠ p := by
    rintro rfl
    rw [h] at hq
    cases hq
  unfold get? at hq ⊢
  split
  · next hroot =>
    rw [if_pos hroot] at hq
    exact hq
  · next hroot =>
    rw [if_neg hroot] at hq
    exact (Keyed.get?_put_other _ _ hne).trans hq

end Keeps

/-! ## Walking -/

section Walking

variable {t t' : FileTree} {links : Nat} {here : Path} {names : List FileName} {w : Walked}

/-- A step is made from a directory: to the one above it, or to an entry in it. -/
theorem step_eq_ok {next : Path} {name : FileName} : t.step here name = .ok next ↔
    t.get? here = some .directory ∧
      (name = .text ".." ∧ next = here.dropLast ∨
        name ≠ .text ".." ∧ checkName name = .ok () ∧ next = here ++ [name]) := by
  unfold step
  constructor
  · intro h
    split at h
    · cases h
    · next hdir =>
      refine ⟨hdir, ?_⟩
      split at h
      · next hup =>
        cases h
        exact .inl ⟨hup, rfl⟩
      · next hup =>
        split at h
        · cases h
        · next hcheck =>
          cases h
          exact .inr ⟨hup, hcheck, rfl⟩
    · cases h
  · rintro ⟨hdir, ⟨hup, rfl⟩ | ⟨hup, hcheck, rfl⟩⟩
    · rw [hdir]
      exact if_pos hup
    · rw [hdir]
      dsimp only
      rw [if_neg hup, hcheck]

theorem get?_of_step {next : Path} {name : FileName} (h : t.step here name = .ok next) :
    t.get? here = some .directory := (step_eq_ok.mp h).1

/-- A step depends only on the directory that it is made from. -/
theorem step_kept {next : Path} {name : FileName} (h : t.step here name = .ok next)
    (hhere : t'.get? here = some .directory) : t'.step here name = .ok next :=
  step_eq_ok.mpr ⟨hhere, (step_eq_ok.mp h).2⟩

section WalkOn

variable {carryOn carryOn' : Path → List FileName → Except FileError Walked}

/-- A walk to a directory starts at one. -/
theorem get?_of_walkOn (h : t.walkOn links carryOn here names = .ok w)
    (hend : t.get? w.place = some .directory) : t.get? here = some .directory := by
  cases names with
  | nil =>
    cases h
    exact hend
  | cons name rest =>
    unfold walkOn at h
    split at h
    · cases h
    · next hstep => exact get?_of_step hstep

theorem walkOn_kept (hkeep : Keeps t t')
    (hcarry : ∀ here names, carryOn here names = .ok w → carryOn' here names = .ok w)
    (h : t.walkOn links carryOn here names = .ok w) (hend : t.get? w.place = some .directory) :
    t'.walkOn links carryOn' here names = .ok w := by
  induction names generalizing here with
  | nil => exact h
  | cons name rest ih =>
    unfold walkOn at h ⊢
    split at h
    · cases h
    · next next hstep =>
      rw [step_kept hstep (hkeep.directory (get?_of_step hstep))]
      dsimp only
      split at h
      · next hlink =>
        rw [hkeep.link hlink]
        exact hcarry _ _ h
      · rw [hkeep.directory (get?_of_walkOn h hend)]
        exact ih h

end WalkOn

/-- A walk to a directory leads there in every tree that keeps the directories and links. -/
theorem walk_kept (hkeep : Keeps t t') (h : t.walk links here names = .ok w)
    (hend : t.get? w.place = some .directory) : t'.walk links here names = .ok w := by
  induction links generalizing here names with
  | zero => exact walkOn_kept hkeep (fun _ _ hcarry => hcarry) h hend
  | succ links ih => exact walkOn_kept hkeep (fun _ _ hcarry => ih hcarry) h hend

theorem existingDirectory_eq_ok : t.existingDirectory links here names = .ok w ↔
    t.walk links here names = .ok w ∧ t.get? w.place = some .directory := by
  unfold existingDirectory
  constructor
  · intro h
    split at h
    · cases h
    · next hwalk =>
      split at h
      · next hdir =>
        cases h
        exact ⟨hwalk, hdir⟩
      · cases h
      · cases h
  · rintro ⟨hwalk, hdir⟩
    rw [hwalk]
    dsimp only
    rw [hdir]

theorem existingDirectory_kept (hkeep : Keeps t t')
    (h : t.existingDirectory links here names = .ok w) :
    t'.existingDirectory links here names = .ok w := by
  obtain ⟨hwalk, hdir⟩ := existingDirectory_eq_ok.mp h
  exact existingDirectory_eq_ok.mpr ⟨walk_kept hkeep hwalk hdir, hkeep.directory hdir⟩

theorem goThrough_kept (hkeep : Keeps t t') {link : Link}
    (h : t.goThrough links here link = .ok w) : t'.goThrough links here link = .ok w := by
  cases links with
  | zero => cases h
  | succ links => exact existingDirectory_kept hkeep h

end Walking

/-! ## Making directories -/

section Making

variable {t t₁ t' : FileTree} {links : Nat} {here dir : Path} {names : List FileName}

theorem isDirectory_eq_true {p : Path} : t.isDirectory p = true ↔ t.get? p = some .directory := by
  unfold isDirectory
  exact beq_iff_eq

theorem makeDirectory_eq_ok {name : FileName} (h : t.makeDirectory dir name = .ok t') :
    t.get? (dir ++ [name]) = none ∧ t' = t.insert (dir ++ [name]) .directory := by
  unfold makeDirectory at h
  split at h
  · cases h
  · split at h
    · cases h
    · next hnone => exact ⟨by simpa using hnone, (Except.ok.inj h).symm⟩

theorem keeps_makeAlong (t : FileTree) (links : Nat) (here : Path) (names : List FileName) :
    Keeps t (t.makeAlong links here names).files := by
  induction names generalizing t links here with
  | nil => exact .refl t
  | cons name rest ih =>
    unfold makeAlong
    split
    · exact .refl t
    · split
      · split
        · exact .refl t
        · exact ih _ _ _
      · exact ih _ _ _
      · split
        · exact .refl t
        · next t₂ hmake =>
          obtain ⟨hnone, rfl⟩ := makeDirectory_eq_ok hmake
          exact (keeps_insert hnone _).trans (ih _ _ _)

theorem get?_of_makeAlong (h : t.makeAlong links here names = ⟨t₁, .ok dir⟩) :
    t.get? here = some .directory := by
  cases names with
  | nil =>
    unfold makeAlong at h
    split at h
    · next hdir => exact isDirectory_eq_true.mp hdir
    · cases h
  | cons name rest =>
    unfold makeAlong at h
    split at h
    · cases h
    · next hstep => exact get?_of_step hstep

/-- Once directories have been made along a path, any tree that has them leads along it without
making more. -/
theorem makeAlong_kept (h : t.makeAlong links here names = ⟨t₁, .ok dir⟩) (hkeep : Keeps t₁ t') :
    t'.makeAlong links here names = ⟨t', .ok dir⟩ := by
  have hkept {t : FileTree} {links : Nat} {here : Path} {names : List FileName}
      (h : t.makeAlong links here names = ⟨t₁, .ok dir⟩) : Keeps t t' := by
    have hmade := keeps_makeAlong t links here names
    rw [h] at hmade
    exact hmade.trans hkeep
  induction names generalizing t links here with
  | nil =>
    have hhere := (hkept h).directory (get?_of_makeAlong h)
    unfold makeAlong at h ⊢
    split at h
    · cases h
      rw [if_pos (isDirectory_eq_true.mpr hhere)]
    · cases h
  | cons name rest ih =>
    have hall := hkept h
    unfold makeAlong at h ⊢
    split at h
    · cases h
    · next next hstep =>
      rw [step_kept hstep (hall.directory (get?_of_step hstep))]
      dsimp only
      split at h
      · next hlink =>
        rw [hall.link hlink]
        dsimp only
        split at h
        · cases h
        · next w hgo =>
          rw [goThrough_kept hall hgo]
          exact ih h
      · rw [hall.directory (get?_of_makeAlong h)]
        exact ih h
      · split at h
        · cases h
        · next t₂ _ =>
          rw [(hkept h).directory (get?_of_makeAlong h)]
          exact ih h

/-- What is made for the text of a path, and where the text leads then. -/
theorem makeDirectories_eq_ok {workingDirectory : Path} {text : String} :
    t.makeDirectories workingDirectory text = ⟨t₁, .ok dir⟩ ↔ checkText text = .ok () ∧
      (∃ last, t.makeAlong maxLinks (startOf workingDirectory text) (namesToMake text) =
        ⟨t₁, .ok last⟩) ∧
      ∃ w, t₁.existingDirectory maxLinks (startOf workingDirectory text) (namesOf text) = .ok w ∧
        w.place = dir := by
  unfold makeDirectories
  dsimp only
  constructor
  · intro h
    split at h
    · cases h
    · next hcheck =>
      refine ⟨hcheck, ?_⟩
      split at h
      · cases h
      · next t₂ last halong =>
        obtain ⟨rfl, hresult⟩ := Made.mk.inj h
        refine ⟨⟨last, halong⟩, ?_⟩
        cases hw : t₂.existingDirectory maxLinks (startOf workingDirectory text) (namesOf text) with
        | error e =>
          rw [hw] at hresult
          cases hresult
        | ok w =>
          rw [hw] at hresult
          exact ⟨w, rfl, Except.ok.inj hresult⟩
  · rintro ⟨hcheck, ⟨last, halong⟩, w, hw, rfl⟩
    rw [hcheck, halong]
    dsimp only
    rw [hw]
    rfl

/-- The text of a path for which directories have been made leads to the last one in every tree that
still has the directories and links. -/
theorem makeDirectories_kept {workingDirectory : Path} {text : String}
    (h : t.makeDirectories workingDirectory text = ⟨t₁, .ok dir⟩) (hkeep : Keeps t₁ t') :
    t'.makeDirectories workingDirectory text = ⟨t', .ok dir⟩ := by
  obtain ⟨hcheck, ⟨last, halong⟩, w, hw, hplace⟩ := makeDirectories_eq_ok.mp h
  exact makeDirectories_eq_ok.mpr ⟨hcheck, ⟨last, makeAlong_kept halong hkeep⟩, w,
    existingDirectory_kept hkeep hw, hplace⟩

/-- A directory that has been made is what its text resolves to. -/
theorem resolve_of_makeDirectories {workingDirectory : Path} {text : String} (hne : text ≠ "")
    (h : t.makeDirectories workingDirectory text = ⟨t₁, .ok dir⟩) :
    t₁.resolve workingDirectory text = .ok dir := by
  obtain ⟨hcheck, -, w, hw, rfl⟩ := makeDirectories_eq_ok.mp h
  obtain ⟨hwalk, hdir⟩ := existingDirectory_eq_ok.mp hw
  unfold resolve
  rw [if_neg hne, hcheck]
  dsimp only
  rw [hwalk]
  dsimp only
  rw [hdir]

end Making

/-! ## The names along a way -/

section Proper

variable {t : FileTree}

theorem proper_namesOf (text : String) : Path.Proper (namesOf text) := by
  intro name hname
  obtain ⟨piece, hpiece, rfl⟩ := List.mem_map.mp hname
  rw [List.mem_filter, List.mem_map] at hpiece
  obtain ⟨⟨cs, hcs, rfl⟩, hkept⟩ := hpiece
  refine ⟨by simp_all, ?_⟩
  rw [String.toList_ofList]
  exact Text.not_mem_of_mem_split hcs

theorem proper_startOf {workingDirectory : Path} (h : workingDirectory.Proper) (text : String) :
    (startOf workingDirectory text).Proper := by
  unfold startOf
  split
  · exact Path.proper_nil
  · exact h

theorem proper_start {here : Path} (h : here.Proper) (link : Link) :
    (link.start here).Proper := by
  unfold Link.start
  split
  · exact Path.proper_nil
  · exact h

theorem proper_step {here next : Path} {name : FileName} (h : t.step here name = .ok next)
    (hhere : here.Proper) (hname : name.Proper) : next.Proper := by
  obtain ⟨-, ⟨-, rfl⟩ | ⟨-, -, rfl⟩⟩ := step_eq_ok.mp h
  · exact fun other hmem => hhere other (List.mem_of_mem_dropLast hmem)
  · exact List.forall_mem_append.mpr ⟨hhere, List.forall_mem_singleton.mpr hname⟩

theorem proper_walkOn {links : Nat} {carryOn : Path → List FileName → Except FileError Walked}
    {w : Walked}
    (hcarry : ∀ here names, carryOn here names = .ok w → here.Proper → Path.Proper names →
      w.place.Proper)
    {here : Path} {names : List FileName} (h : t.walkOn links carryOn here names = .ok w)
    (hhere : here.Proper) (hnames : Path.Proper names) : w.place.Proper := by
  induction names generalizing here with
  | nil =>
    cases h
    exact hhere
  | cons name rest ih =>
    obtain ⟨hname, hrest⟩ := List.forall_mem_cons.mp hnames
    unfold walkOn at h
    split at h
    · cases h
    · next next hstep =>
      have hnext := proper_step hstep hhere hname
      split at h
      · next link _ =>
        exact hcarry _ _ h (proper_start hhere link)
          (List.forall_mem_append.mpr ⟨link.proper, hrest⟩)
      · exact ih h hnext hrest

theorem proper_walk {links : Nat} {here : Path} {names : List FileName} {w : Walked}
    (h : t.walk links here names = .ok w) (hhere : here.Proper) (hnames : Path.Proper names) :
    w.place.Proper := by
  induction links generalizing here names with
  | zero => exact proper_walkOn (fun _ _ hcarry => by cases hcarry) h hhere hnames
  | succ links ih => exact proper_walkOn (fun _ _ hcarry => ih hcarry) h hhere hnames

theorem proper_resolve {workingDirectory p : Path} {text : String}
    (hworking : workingDirectory.Proper) (h : t.resolve workingDirectory text = .ok p) :
    p.Proper := by
  unfold resolve at h
  split at h
  · cases h
  · split at h
    · cases h
    · split at h
      · cases h
      · next w hwalk =>
        have hproper :=
          proper_walk hwalk (proper_startOf hworking text) (proper_namesOf text)
        split at h
        · cases h
        · cases h
          exact hproper
        · split at h
          · cases h
          · cases h
            exact hproper

end Proper

end DocQuery.FileTree
