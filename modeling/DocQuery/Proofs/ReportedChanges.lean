import DocQuery.Proofs.Edits
import Mathlib.Data.List.Perm.Subperm

/-
  What has become of a document when an update says that it has changed nothing. The update counts
  a set as a change unless it finds an equal value, and numbers of two kinds can be equal, so a
  number may have become one of another kind. `apply_unreported` says where that happens, and that
  nothing else does.

  A document is compared name by name (`SameThroughout`): whatever names lead to before and
  afterwards is compared on its own, and where both are documents the comparison is left to the
  names that lead further. So one edit is settled by how its path stands to the names, and edits one
  after the other by composing what is there before, between and afterwards.
-/

namespace DocQuery

/-- Two steps of what may become of something that may be missing. -/
theorem rel_comp {α : Type} {r s t : α → α → Prop} (hcomp : ∀ x y z, r x y → s y z → t x z)
    {x y z : Option α} (h : Option.Rel r x y) (h' : Option.Rel s y z) : Option.Rel t x z := by
  rcases h with h | -
  · rcases h' with h' | -
    exact .some (hcomp _ _ _ h h')
  · rcases h' with - | -
    exact .none

theorem rel_bind {α : Type} {r s : α → α → Prop} {x y : Option α} {f g : α → Option α}
    (h : Option.Rel r x y) (hbind : ∀ a b, x = some a → r a b → Option.Rel s (f a) (g b)) :
    Option.Rel s (x.bind f) (y.bind g) := by
  rcases h with h | -
  · exact hbind _ _ rfl h
  · exact .none

theorem isSome_of_rel {α : Type} {r : α → α → Prop} {x y : Option α} (h : Option.Rel r x y) :
    x.isSome = y.isSome := by
  rcases h with - | - <;> rfl

namespace Value

/-! ## Equal values, and numbers of two kinds -/

/-- Whether two values are the same as far as they do not lead further. -/
inductive Matches : Value → Value → Prop
  | documents (xs ys : Document) : Matches (document xs) (document ys)
  | refl (v : Value) : Matches v v
  | same {v w : Value} : same v w = true → Matches v w

/-- Whether two values are equal, but not of one kind. -/
def Converted (v w : Value) : Prop := v.alike w = true ∧ ¬SameKind v w

/-- Whether all names lead to the same in two values. -/
def SameThroughout (v w : Value) : Prop :=
  ∀ names, Option.Rel Matches (v.descend names) (w.descend names)

theorem rel_matches_refl (found : Option Value) : Option.Rel Matches found found := by
  cases found with
  | none => exact .none
  | some v => exact .some (.refl v)

theorem Matches.sameKind {v w : Value} (h : Matches v w) : SameKind v w := by
  cases h with
  | documents | refl => rfl
  | same h => exact sameKind_of_same h

theorem Matches.trans {u v w : Value} (h : Matches u v) (h' : Matches v w) : Matches u w := by
  cases h with
  | documents xs ys =>
    obtain ⟨zs, rfl⟩ := exists_document h'.sameKind.symm
    exact .documents xs zs
  | refl => exact h'
  | same h =>
    cases h' with
    | documents ys zs =>
      obtain ⟨xs, rfl⟩ := exists_document (sameKind_of_same h)
      exact .documents xs zs
    | refl => exact .same h
    | same h' => exact .same (same_trans _ _ _ h h')

/-- Equal values of two kinds are numbers. -/
theorem Converted.fields? {v w : Value} (h : Converted v w) :
    v.fields? = none ∧ w.fields? = none := by
  obtain ⟨hequal, hkind⟩ := h
  unfold alike at hequal
  split at hequal
  case h_7 => exact absurd (sameKind_of_same hequal) hkind
  all_goals exact ⟨rfl, rfl⟩

theorem Converted.of_left {u v w : Value} (h : Matches u v) (h' : Converted v w) :
    Converted u w := by
  have hkind : ¬SameKind u w := fun hsame => h'.2 (h.sameKind.symm.trans hsame)
  cases h with
  | documents => nomatch h'.fields?.1
  | refl => exact h'
  | same h => exact ⟨alike_of_same_left h h'.1, hkind⟩

theorem Converted.of_right {u v w : Value} (h : Converted u v) (h' : Matches v w) :
    Converted u w := by
  have hkind : ¬SameKind u w := fun hsame => h.2 (hsame.trans h'.sameKind.symm)
  cases h' with
  | documents => nomatch h.fields?.2
  | refl => exact h
  | same h' => exact ⟨alike_of_same_right h.1 h', hkind⟩

theorem not_rel_converted_matches {found found' : Option Value} {v : Value} (hv : found = some v)
    (h : Option.Rel Converted found found') : ¬Option.Rel Matches found found' := by
  subst hv
  rcases h with h | -
  rintro (h' | -)
  exact h.2 h'.sameKind

/-! ## Documents that are the same throughout -/

/-- Documents with as many fields, in one of which all names of the other are found, have the same
names. -/
theorem keys_perm {xs ys : Document} (hxs : (Keyed.keys xs).Nodup)
    (hlength : xs.length = ys.length)
    (hfound : ∀ e ∈ xs, (Keyed.get? ys e.1).isSome) : (Keyed.keys xs).Perm (Keyed.keys ys) := by
  have hsub : Keyed.keys xs ⊆ Keyed.keys ys := by
    intro name hname
    obtain ⟨e, he, rfl⟩ := List.mem_map.mp hname
    exact (Keyed.mem_keys_iff ys e.1).mpr (hfound e he)
  refine (hxs.subperm hsub).perm_of_length_le (Nat.le_of_eq ?_)
  rw [Keyed.keys, Keyed.keys, List.length_map, List.length_map, hlength]

theorem get?_of_same {xs ys : Document} (hxs : (Keyed.keys xs).Nodup)
    (h : same (document xs) (document ys) = true) (name : String) :
    Option.Rel (fun v w => same v w = true) (Keyed.get? xs name) (Keyed.get? ys name) := by
  obtain ⟨hlength, hfields⟩ := same_document_iff.mp h
  cases hv : Keyed.get? xs name with
  | some v =>
    obtain ⟨w, hw, hsame⟩ := hfields (name, v) (Keyed.mem_of_get? hv)
    rw [hw]
    exact .some hsame
  | none =>
    have hkeys := keys_perm hxs hlength fun e he => by
      obtain ⟨w, hw, -⟩ := hfields e he
      rw [hw]
      rfl
    have hnone : Keyed.get? ys name = none := by
      rw [← Option.not_isSome_iff_eq_none, ← Keyed.mem_keys_iff, ← hkeys.mem_iff,
        Keyed.mem_keys_iff, hv]
      nofun
    rw [hnone]
    exact .none

/-- Values of the same content lead to values of the same content. -/
theorem sameThroughout_of_same {v w : Value} (hv : v.WellFormed) (h : same v w = true) :
    SameThroughout v w := by
  intro names
  induction names generalizing v w with
  | nil =>
    rw [descend_nil, descend_nil]
    exact .some (.same h)
  | cons name rest ih =>
    cases hfields : v.fields? with
    | none =>
      have hnone : w.fields? = none := by
        rw [← Option.not_isSome_iff_eq_none]
        intro hsome
        obtain ⟨ys, hys⟩ := Option.isSome_iff_exists.mp hsome
        obtain rfl := eq_document_of_fields? hys
        obtain ⟨xs, rfl⟩ := exists_document (sameKind_of_same h)
        cases hfields
      rw [descend_of_fields?_eq_none hfields, descend_of_fields?_eq_none hnone]
      exact .none
    | some xs =>
      obtain rfl := eq_document_of_fields? hfields
      obtain ⟨ys, rfl⟩ := exists_document (sameKind_of_same h).symm
      rw [descend_cons, descend_cons]
      exact rel_bind (get?_of_same (wellFormed_document_iff.mp hv).1 h name)
        fun x y hx hsame => ih (wellFormed_get? hv hx) hsame

theorem SameThroughout.rel_get? {xs ys : Document}
    (h : SameThroughout (document xs) (document ys)) (name : String) :
    Option.Rel SameThroughout (Keyed.get? xs name) (Keyed.get? ys name) := by
  have hnames : ∀ names, Option.Rel Matches ((Keyed.get? xs name).bind (·.descend names))
      ((Keyed.get? ys name).bind (·.descend names)) := fun names => h (name :: names)
  have hhere := isSome_of_rel (hnames [])
  revert hnames hhere
  rcases Keyed.get? xs name with _ | v <;> rcases Keyed.get? ys name with _ | w
  · exact fun _ _ => .none
  · simp [descend_nil]
  · simp [descend_nil]
  · exact fun hnames _ => .some hnames

mutual

/-- Conversely, a value that is equal to itself is equal to what is the same throughout. -/
theorem same_of_sameThroughout (v w : Value) (hself : same v v = true) (hv : v.WellFormed)
    (hw : w.WellFormed) (h : SameThroughout v w) : same v w = true := by
  have hhere := h []
  rw [descend_nil, descend_nil] at hhere
  obtain ⟨hmatches⟩ := hhere
  cases v with
  | document xs =>
    obtain ⟨ys, rfl⟩ := exists_document hmatches.sameKind.symm
    have hxs := wellFormed_document_iff.mp hv
    have hkeys : (Keyed.keys xs).Perm (Keyed.keys ys) := by
      rw [List.perm_ext_iff_of_nodup hxs.1 (wellFormed_document_iff.mp hw).1]
      intro name
      rw [Keyed.mem_keys_iff, Keyed.mem_keys_iff, isSome_of_rel (h.rel_get? name)]
    rw [same_document_iff]
    refine ⟨by simpa [Keyed.keys] using hkeys.length_eq, ?_⟩
    refine sameFields_of_sameThroughout xs ys (fun e he => ?_) hxs.2 hw fun e he => ?_
    · obtain ⟨v, hv, hsame⟩ := (same_document_iff.mp hself).2 e he
      rw [(Keyed.mem_iff_get? hxs.1 e.1 e.2).mp he, Option.some.injEq] at hv
      rwa [← hv] at hsame
    · have hfound := h.rel_get? e.1
      rwa [(Keyed.mem_iff_get? hxs.1 e.1 e.2).mp he] at hfound
  | _ =>
    cases hmatches with
    | refl => exact hself
    | same h => exact h

theorem sameFields_of_sameThroughout (xs ys : List (String × Value))
    (hself : ∀ e ∈ xs, same e.2 e.2 = true) (hxs : ∀ e ∈ xs, e.2.WellFormed)
    (hys : (document ys).WellFormed)
    (h : ∀ e ∈ xs, Option.Rel SameThroughout (some e.2) (Keyed.get? ys e.1)) :
    ∀ e ∈ xs, ∃ w, Keyed.get? ys e.1 = some w ∧ same e.2 w = true := by
  cases xs with
  | nil => nofun
  | cons e rest =>
    obtain ⟨k, v⟩ := e
    rw [List.forall_mem_cons] at hself hxs h ⊢
    refine ⟨?_, sameFields_of_sameThroughout rest ys hself.2 hxs.2 hys h.2⟩
    obtain ⟨w, hw⟩ := Option.isSome_iff_exists.mp (isSome_of_rel h.1).symm
    have hfirst := h.1
    rw [hw] at hfirst
    obtain ⟨hsame⟩ := hfirst
    exact ⟨w, hw, same_of_sameThroughout v w hself.1 hxs.1 (wellFormed_get? hys hw) hsame⟩

end

end Value

namespace Update

open FieldPath Value

/-! ## Edits that are no change -/

/-- Whether an edit sets a value in place of one of another kind. -/
def Edit.Converts (e : Edit) (d : Document) : Prop :=
  ∃ v w, e.value = some v ∧ (Value.document d).descend e.names = some w ∧ ¬SameKind w v

/-- Whether one of some edits, at the end of the names, sets a value in place of one of another
kind. -/
def Converts (es : List Edit) (d : Document) (names : List String) : Prop :=
  ∃ e ∈ es, e.names = names ∧ e.Converts d

/-- What becomes of a document through edits that are no change: where one of them sets a value in
place of one of another kind, the two are equal, and all else is what it was. -/
def Quiet (es : List Edit) (d d' : Document) : Prop :=
  ∀ names,
    (Converts es d names → Option.Rel Converted ((Value.document d).descend names)
      ((Value.document d').descend names)) ∧
    (¬Converts es d names → Option.Rel Matches ((Value.document d).descend names)
      ((Value.document d').descend names))

/-- Whether no two edits set a value at the same place. -/
def SetsOnce (es : List Edit) : Prop :=
  es.Pairwise fun e f => e.value.isSome → f.value.isSome → e.names ≠ f.names

theorem Edit.Converts.isSome_value {e : Edit} {d : Document} (h : e.Converts d) :
    e.value.isSome := by
  obtain ⟨v, -, hv, -⟩ := h
  rw [hv]
  rfl

theorem converts_single {e : Edit} {d : Document} {names : List String} :
    Converts [e] d names ↔ e.names = names ∧ e.Converts d := by
  simp [Converts]

/-- A set that is no change has found an equal value. -/
theorem exists_alike_of_setAt {value : Value} {names : List String} {d d' : Document}
    (hnames : names ≠ []) (hset : setAt value names d = .ok (d', false)) :
    ∃ old, (Value.document d).descend names = some old ∧ old.alike value = true := by
  have hchanges := changed_of_setAt hnames hset
  cases hfound : (Value.document d).descend names with
  | none =>
    rw [hfound] at hchanges
    cases hchanges
  | some old =>
    rw [hfound] at hchanges
    exact ⟨old, rfl, by simpa [changes] using hchanges⟩

theorem converts_set_iff {path : String} {v old : Value} {d : Document} {names : List String}
    (hold : (Value.document d).descend (segments path) = some old) :
    Converts [⟨path, some v⟩] d names ↔ segments path = names ∧ ¬SameKind old v := by
  rw [converts_single]
  refine and_congr_right fun _ => ⟨?_, fun hkind => ⟨v, old, rfl, hold, hkind⟩⟩
  rintro ⟨w, w', hw, hw', hkind⟩
  cases hw
  cases hold.symm.trans hw'
  exact hkind

/-- Equal values lead to the same, unless they are numbers of two kinds themselves. -/
theorem rel_matches_of_alike {v w : Value} (hv : v.WellFormed) (h : v.alike w = true)
    {names : List String} (hnames : names ≠ [] ∨ SameKind v w) :
    Option.Rel Matches (v.descend names) (w.descend names) := by
  by_cases hkind : SameKind v w
  · rw [alike_eq_same hkind] at h
    exact sameThroughout_of_same hv h names
  · obtain ⟨hfields, hfields'⟩ := Converted.fields? ⟨h, hkind⟩
    rcases names with _ | ⟨name, rest⟩
    · exact absurd (hnames.resolve_left fun hnil => hnil rfl) hkind
    · rw [descend_of_fields?_eq_none hfields, descend_of_fields?_eq_none hfields']
      exact .none

/-- A set that is no change, seen from any place: at its path, behind it, in front of it, or apart
from it. -/
theorem quiet_set {path : String} {v : Value} {d d' : Document} (hd : (Value.document d).WellFormed)
    (hset : setAt v (segments path) d = .ok (d', false)) : Quiet [⟨path, some v⟩] d d' := by
  obtain ⟨old, hold, halike⟩ := exists_alike_of_setAt (segments_ne_nil path) hset
  have hself := descend_setAt_self (segments_ne_nil path) hset
  intro names
  rw [converts_set_iff hold]
  refine ⟨?_, fun hnot => ?_⟩
  · rintro ⟨rfl, hkind⟩
    rw [hold, hself]
    exact .some ⟨halike, hkind⟩
  · by_cases hbehind : segments path <+: names
    · obtain ⟨rest, rfl⟩ := hbehind
      rw [descend_append, descend_append, hold, hself, Option.bind_some, Option.bind_some]
      refine rel_matches_of_alike (wellFormed_descend hd hold) halike ?_
      by_cases hkind : SameKind old v
      · exact .inr hkind
      · refine .inl fun hnil => hnot ⟨?_, hkind⟩
        rw [hnil, List.append_nil]
    · by_cases hfront : names <+: segments path
      · -- on the way to a value there are documents, to the old one and to the new one
        obtain ⟨rest, hrest⟩ := hfront
        rcases rest with _ | ⟨name, rest⟩
        · rw [List.append_nil] at hrest
          exact absurd (hrest ▸ List.prefix_refl _) hbehind
        · rw [← hrest] at hold hself
          obtain ⟨xs, hxs⟩ := exists_document_front hold
          obtain ⟨ys, hys⟩ := exists_document_front hself
          rw [hxs, hys]
          exact .some (.documents xs ys)
      · rw [descend_setAt_apart ⟨hbehind, hfront⟩ hset]
        exact rel_matches_refl _

theorem quiet_single {e : Edit} {d d' : Document} (hd : (Value.document d).WellFormed)
    (h : e.apply d = some (d', false)) : Quiet [e] d d' := by
  obtain ⟨path, _ | v⟩ := e
  · -- a removal that is no change has found nothing
    have hremoved := (Edit.changes_of_apply h).symm
    have hnone : (Value.document d).descend (segments path) = none := by
      simpa [Edit.changes, Edit.names] using hremoved
    obtain rfl : d = d' := congrArg Prod.fst ((unsetAt_of_descend hnone).symm.trans
      (Edit.apply_unset h))
    refine fun names => ⟨fun hconverts => ?_, fun _ => rel_matches_refl _⟩
    obtain ⟨-, v, w, hv, -⟩ := converts_single.mp hconverts
    cases hv
  · exact quiet_set hd (Edit.apply_set.mp h)

/-- Where a document has what matches, an edit finds a value of the same kind. -/
theorem converts_congr {e : Edit} {d d' : Document}
    (h : Option.Rel Matches ((Value.document d).descend e.names)
      ((Value.document d').descend e.names)) : e.Converts d' ↔ e.Converts d := by
  unfold Edit.Converts
  revert h
  generalize (Value.document d).descend e.names = found
  generalize (Value.document d').descend e.names = found'
  rintro (@⟨v, w, hmatches⟩ | -)
  · have hkind : ∀ u, SameKind w u ↔ SameKind v u := fun u =>
      ⟨hmatches.sameKind.trans, hmatches.sameKind.symm.trans⟩
    simp [hkind]
  · exact Iff.rfl

section Cons

variable {e : Edit} {es : List Edit} {d d₁ d' : Document} (h : Quiet [e] d d₁)
  (honce : ∀ f ∈ es, e.value.isSome → f.value.isSome → e.names ≠ f.names)
include honce

theorem not_converts_of_once {f : Edit} (hf : f ∈ es) (hset : f.value.isSome) :
    ¬Converts [e] d f.names := by
  intro hconverts
  obtain ⟨hnames, he⟩ := converts_single.mp hconverts
  exact honce f hf he.isSome_value hset hnames

include h

/-- What is of another kind than what is set is so before the first edit and after it. -/
theorem converts_cons_iff (names : List String) :
    Converts (e :: es) d names ↔ Converts [e] d names ∨ Converts es d₁ names := by
  have hlater : ∀ f ∈ es, (f.Converts d₁ ↔ f.Converts d) := by
    intro f hf
    by_cases hset : f.value.isSome
    · exact converts_congr ((h f.names).2 (not_converts_of_once honce hf hset))
    · exact ⟨fun hf => absurd hf.isSome_value hset, fun hf => absurd hf.isSome_value hset⟩
  rw [converts_single]
  unfold Converts
  rw [List.exists_mem_cons_iff]
  refine or_congr_right (exists_congr fun f => and_congr_right fun hf => ?_)
  rw [hlater f hf]

/-- One edit, and then others that set nothing at its place. -/
theorem Quiet.cons (h' : Quiet es d₁ d') : Quiet (e :: es) d d' := by
  intro names
  rw [converts_cons_iff h honce]
  -- at a place where the first edit has changed the kind no other one sets anything
  by_cases hfirst : Converts [e] d names
  · have hrest : ¬Converts es d₁ names := by
      rintro ⟨f, hf, rfl, hconverts⟩
      exact not_converts_of_once honce hf hconverts.isSome_value hfirst
    exact ⟨fun _ => rel_comp @Converted.of_right ((h names).1 hfirst) ((h' names).2 hrest),
      fun hnone => absurd (.inl hfirst) hnone⟩
  · refine ⟨fun hrest => ?_, fun hnone => ?_⟩
    · exact rel_comp @Converted.of_left ((h names).2 hfirst)
        ((h' names).1 (hrest.resolve_left hfirst))
    · exact rel_comp @Matches.trans ((h names).2 hfirst)
        ((h' names).2 fun hrest => hnone (.inr hrest))

end Cons

theorem quiet_run {es : List Edit} (hes : SetsOnce es)
    (hvalues : ∀ e ∈ es, ∀ v, e.value = some v → v.WellFormed) {d d' : Document}
    (hd : (Value.document d).WellFormed) (h : es.foldlM Edit.step (d, false) = some (d', false)) :
    Quiet es d d' := by
  induction es generalizing d with
  | nil =>
    cases h
    refine fun names => ⟨?_, fun _ => rel_matches_refl _⟩
    rintro ⟨e, he, -⟩
    cases he
  | cons e es ih =>
    obtain ⟨honce, hrest⟩ := List.pairwise_cons.mp hes
    rw [List.forall_mem_cons] at hvalues
    obtain ⟨d₁, c₁, hone, hmore⟩ := Edit.run_cons.mp h
    cases c₁ with
    | true => cases Edit.changed_of_run hmore
    | false =>
      exact (quiet_single hd hone).cons honce
        (ih hrest hvalues.2 (Edit.wellFormed_apply hd hvalues.1 hone) hmore)

/-! ## Updates that are no change -/

theorem op_of_mem_operatorEdits {op : String} {operand : Value} {e : Edit}
    (h : e ∈ operatorEdits op operand) (hset : e.value.isSome) : op = "$set" := by
  unfold operatorEdits at h
  split at h
  · assumption
  · split at h
    · obtain ⟨field, -, rfl⟩ := List.mem_map.mp h
      cases hset
    · cases h

theorem setsOnce_operatorEdits {operand : Value} (h : operand.WellFormed) (op : String) :
    SetsOnce (operatorEdits op operand) := by
  have hfields : (Keyed.keys (operand.fields?.getD [])).Nodup := by
    cases hoperand : operand.fields? with
    | none => exact List.nodup_nil
    | some fields =>
      obtain rfl := eq_document_of_fields? hoperand
      exact (wellFormed_document_iff.mp h).1
  unfold SetsOnce operatorEdits
  split
  · rw [List.pairwise_map]
    refine (List.pairwise_map.mp hfields).imp fun hne _ _ hnames => hne ?_
    exact segments_injective hnames
  · split
    · rw [List.pairwise_map]
      exact (List.pairwise_map.mp hfields).imp fun _ hset => nomatch hset
    · exact .nil

/-- An update sets no path twice: there is one operator that sets, and it has each path once. -/
theorem setsOnce_edits {update : Document} (h : (Value.document update).WellFormed) :
    SetsOnce (edits update) := by
  obtain ⟨hops, hoperands⟩ := wellFormed_document_iff.mp h
  unfold SetsOnce edits
  rw [List.pairwise_flatMap]
  refine ⟨fun e he => setsOnce_operatorEdits (hoperands e he) e.1, ?_⟩
  refine (List.pairwise_map.mp hops).imp fun hne x hx y hy hsetx hsety => absurd ?_ hne
  rw [op_of_mem_operatorEdits hx hsetx, op_of_mem_operatorEdits hy hsety]

/-- An update that says that it has changed nothing leaves everything as it was, but for numbers:
at the path of a set there may be an equal number of another kind, and it is there whenever the
value that is set is of another kind than what was found. So the document is the same throughout
exactly if the sets bring no number of another kind. -/
theorem apply_unreported {update d : Document} (hupdate : (Value.document update).WellFormed)
    (hd : (Value.document d).WellFormed) (h : (apply update d).result = .ok false) :
    Quiet (edits update) d (apply update d).document ∧
    (SameThroughout (.document d) (.document (apply update d).document) ↔
      ∀ names, ¬Converts (edits update) d names) ∧
    (same (.document d) (.document d) = true →
      (same (.document d) (.document (apply update d).document) = true ↔
        ∀ names, ¬Converts (edits update) d names)) := by
  obtain ⟨-, hrun⟩ := apply_eq_ok_iff.mp (progress_of_result h)
  have hvalues : ∀ e ∈ edits update, ∀ v, e.value = some v → v.WellFormed :=
    fun e he v hv => wellFormed_of_mem_edits hupdate he hv
  have hquiet := quiet_run (setsOnce_edits hupdate) hvalues hd hrun
  have hthroughout : SameThroughout (.document d) (.document (apply update d).document) ↔
      ∀ names, ¬Converts (edits update) d names := by
    refine ⟨fun hsame names hconverts => ?_, fun hnone names => (hquiet names).2 (hnone names)⟩
    obtain ⟨e, -, hnames, v, w, -, hw, -⟩ := id hconverts
    rw [hnames] at hw
    exact not_rel_converted_matches hw ((hquiet names).1 hconverts) (hsame names)
  refine ⟨hquiet, hthroughout, fun hself => ⟨fun hsame => ?_, fun hnone => ?_⟩⟩
  · exact hthroughout.mp (sameThroughout_of_same hd hsame)
  · exact same_of_sameThroughout _ _ hself hd (Edit.wellFormed_run hvalues hd hrun)
      (hthroughout.mpr hnone)

/-- A number of bolts. -/
def tally : Document := [("name", .string "bolts"), ("count", .int32 1)]

/-- Counts them again, to the same number in another kind, and forgets who owns them. -/
def recount : Document :=
  [("$set", .document [("count", .int64 1), ("name", .string "bolts")]),
    ("$unset", .document [("owner", .null)])]

theorem wellFormed_tally : (Value.document tally).WellFormed := by
  simp [tally, Value.WellFormed, Value.WellFormedFields, Keyed.keys]

theorem wellFormed_recount : (Value.document recount).WellFormed := by
  simp [recount, Value.WellFormed, Value.WellFormedFields, Keyed.keys]

/-- Only the number is of another kind afterwards. -/
theorem apply_unreported_recount :
    (apply recount tally).result = .ok false ∧
      (apply recount tally).document = [("name", .string "bolts"), ("count", .int64 1)] ∧
      Quiet (edits recount) tally (apply recount tally).document ∧
      Converts (edits recount) tally ["count"] ∧
      ¬SameThroughout (.document tally) (.document (apply recount tally).document) := by
  have hresult : (apply recount tally).result = .ok false := by rfl
  have hconverts : Converts (edits recount) tally ["count"] :=
    ⟨⟨"count", some (.int64 1)⟩, List.mem_cons_self, by rfl, .int64 1, .int32 1, rfl, by rfl,
      by decide⟩
  obtain ⟨hquiet, hthroughout, -⟩ := apply_unreported wellFormed_recount wellFormed_tally hresult
  exact ⟨hresult, by rfl, hquiet, hconverts, fun hsame => hthroughout.mp hsame _ hconverts⟩

/-- The recount says that nothing has changed, and the number has become one of another kind. -/
theorem not_same_of_unreported : ¬ ∀ {update d : Document}, (Value.document update).WellFormed →
    (Value.document d).WellFormed → same (.document d) (.document d) = true →
    (apply update d).result = .ok false →
    same (.document d) (.document (apply update d).document) = true := by
  intro hall
  have hself : same (.document tally) (.document tally) = true :=
    same_self _ wellFormed_tally (by rfl)
  have hsame := hall wellFormed_recount wellFormed_tally hself (by rfl)
  have hfound := sameThroughout_of_same wellFormed_tally hsame ["count"]
  obtain ⟨hmatches⟩ : Option.Rel Matches (some (.int32 1)) (some (.int64 1)) := hfound
  exact absurd hmatches.sameKind (by decide)

end Update

end DocQuery
