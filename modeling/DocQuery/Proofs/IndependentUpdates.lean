import DocQuery.Proofs.Edits
import DocQuery.Proofs.FieldOrder
import Mathlib.Data.List.Nodup

/-
  Updates whose paths are apart from one another. The order in which such an update names its
  operators and fields is of no matter (`apply_shuffled`), and an update that has gone through finds
  nothing to do a second time (`apply_again`).

  Neither swaps two edits. What edits at places apart make of a document (`Edited`) can be said
  without their order, and it leaves nothing open but the order of fields: where all names lead to
  the same, the fields of documents aside, two documents are reorderings of one another.
-/

namespace DocQuery

namespace Value

/-! ## What names lead to determines a document -/

/-- Fields in another order, under names that occur once. -/
theorem perm_of_get? {xs zs ys : List (String × Value)} (hzs : ReorderedFields xs zs)
    (hxs : (Keyed.keys xs).Nodup) (hys : (Keyed.keys ys).Nodup)
    (hfound : ∀ e ∈ zs, Keyed.get? ys e.1 = some e.2)
    (hnames : ∀ name ∈ Keyed.keys ys, name ∈ Keyed.keys xs) : zs.Perm ys := by
  rw [hzs.keys_eq] at hxs hnames
  refine (List.perm_ext_iff_of_nodup (List.Nodup.of_map Prod.fst hxs)
    (List.Nodup.of_map Prod.fst hys)).mpr fun ⟨name, v⟩ => ?_
  rw [Keyed.mem_iff_get? hys]
  refine ⟨hfound (name, v), fun hv => ?_⟩
  have hmem : (name, v) ∈ ys := (Keyed.mem_iff_get? hys name v).mpr hv
  obtain ⟨⟨name, w⟩, hw, rfl⟩ := List.mem_map.mp (hnames name (List.mem_map_of_mem hmem))
  have hsame : some w = some v := (hfound _ hw).symm.trans hv
  rwa [Option.some.inj hsame] at hw

/-- Whether all names lead to the same in two values, the fields of documents aside. -/
def SameOutlines (v w : Value) : Prop :=
  ∀ names, (v.descend names).map outline = (w.descend names).map outline

theorem SameOutlines.symm {v w : Value} (h : SameOutlines v w) : SameOutlines w v :=
  fun names => (h names).symm

theorem SameOutlines.get? {xs ys : Document} (h : SameOutlines (document xs) (document ys))
    {name : String} {v : Value} (hv : Keyed.get? xs name = some v) :
    ∃ w, Keyed.get? ys name = some w ∧ SameOutlines v w := by
  have hnames : ∀ names, (v.descend names).map outline =
      ((Keyed.get? ys name).bind fun w => w.descend names).map outline := by
    intro names
    have hname := h (name :: names)
    rwa [descend_cons, descend_cons, hv, Option.bind_some] at hname
  cases hw : Keyed.get? ys name with
  | none =>
    have hhere := hnames []
    rw [hw, descend_nil] at hhere
    cases hhere
  | some w =>
    rw [hw] at hnames
    exact ⟨w, rfl, hnames⟩

mutual

/-- Two values in which all names lead to the same, the fields of documents aside. -/
theorem reordered_of_outlines (v w : Value) (hv : v.WellFormed) (hw : w.WellFormed)
    (h : SameOutlines v w) : Reordered v w := by
  have hhere := h []
  rw [descend_nil, descend_nil, Option.map_some, Option.map_some, Option.some.injEq] at hhere
  cases v with
  | document xs =>
    obtain ⟨ys, rfl⟩ : ∃ ys, w = document ys := by
      have hdocument := fields?_outline w
      rw [← hhere, fields?_outline] at hdocument
      obtain ⟨ys, hys⟩ := Option.isSome_iff_exists.mp hdocument.symm
      exact ⟨ys, eq_document_of_fields? hys⟩
    obtain ⟨hxs, hvalues⟩ := wellFormed_document_iff.mp hv
    obtain ⟨zs, hzs, hfound⟩ := reorderedFields_of_outlines xs ys hvalues hw
      fun e he => h.get? ((Keyed.mem_iff_get? hxs e.1 e.2).mp he)
    refine .document hzs (perm_of_get? hzs hxs (wellFormed_document_iff.mp hw).1 hfound ?_)
    intro name hname
    rw [Keyed.mem_keys_iff] at hname ⊢
    obtain ⟨y, hy⟩ := Option.isSome_iff_exists.mp hname
    obtain ⟨x, hx, -⟩ := h.symm.get? hy
    rw [hx]
    rfl
  | _ =>
    obtain rfl := eq_of_outline rfl hhere
    exact .refl _

theorem reorderedFields_of_outlines (xs ys : List (String × Value))
    (hxs : ∀ e ∈ xs, e.2.WellFormed) (hys : (document ys).WellFormed)
    (h : ∀ e ∈ xs, ∃ w, Keyed.get? ys e.1 = some w ∧ SameOutlines e.2 w) :
    ∃ zs, ReorderedFields xs zs ∧ ∀ e ∈ zs, Keyed.get? ys e.1 = some e.2 := by
  cases xs with
  | nil => exact ⟨[], .nil, nofun⟩
  | cons e rest =>
    obtain ⟨k, v⟩ := e
    obtain ⟨w, hw, hvw⟩ := h (k, v) List.mem_cons_self
    obtain ⟨zs, hzs, hfound⟩ := reorderedFields_of_outlines rest ys
      (fun e he => hxs e (List.mem_cons_of_mem _ he)) hys
      fun e he => h e (List.mem_cons_of_mem _ he)
    have hreordered : Reordered v w :=
      reordered_of_outlines v w (hxs (k, v) List.mem_cons_self) (wellFormed_get? hys hw) hvw
    exact ⟨(k, w) :: zs, .cons k hreordered hzs, List.forall_mem_cons.mpr ⟨hw, hfound⟩⟩

end

end Value

namespace Update

open FieldPath

/-! ## The order of edits -/

/-- Whether two operators are the same but for the order of the fields under them. -/
def SameFields (e e' : String × Value) : Prop :=
  e.1 = e'.1 ∧ (e.2 = e'.2 ∨ ∃ fields fields', e.2 = .document fields ∧
    e'.2 = .document fields' ∧ fields.Perm fields')

/-- Whether two updates are the same but for the order of their operators and of the fields under
each of them. -/
def Shuffled (update update' : Document) : Prop :=
  ∃ operators, List.Forall₂ SameFields update operators ∧ operators.Perm update'

theorem SameFields.operatorEdits {e e' : String × Value} (h : SameFields e e') :
    (operatorEdits e.1 e.2).Perm (operatorEdits e'.1 e'.2) := by
  obtain ⟨hop, hsame | ⟨fields, fields', hfields, hfields', hperm⟩⟩ := h
  · rw [hop, hsame]
  · rw [hop, hfields, hfields']
    unfold Update.operatorEdits
    split
    · exact hperm.map _
    · split
      · exact hperm.map _
      · exact .refl _

theorem SameFields.admissible {e e' : String × Value} (h : SameFields e e')
    (he : AdmissibleOperator e.1 e.2) : AdmissibleOperator e'.1 e'.2 := by
  obtain ⟨hop, hsame | ⟨fields, fields', hfields, hfields', hperm⟩⟩ := h
  · rwa [← hop, ← hsame]
  · obtain ⟨hkind, checked, hchecked, hfew, hid⟩ := he
    rw [hfields, Value.document.injEq] at hchecked
    subst hchecked
    exact ⟨hop ▸ hkind, fields', hfields', hperm.length_eq ▸ hfew, Keyed.has_perm hperm _ ▸ hid⟩

theorem SameFields.symm {e e' : String × Value} (h : SameFields e e') : SameFields e' e := by
  obtain ⟨hop, hsame | ⟨fields, fields', hfields, hfields', hperm⟩⟩ := h
  · exact ⟨hop.symm, .inl hsame.symm⟩
  · exact ⟨hop.symm, .inr ⟨fields', fields, hfields', hfields, hperm.symm⟩⟩

theorem forall_admissible_iff {update operators : Document}
    (h : List.Forall₂ SameFields update operators) :
    (∀ e ∈ update, AdmissibleOperator e.1 e.2) ↔ ∀ e ∈ operators, AdmissibleOperator e.1 e.2 := by
  induction h with
  | nil => exact Iff.rfl
  | cons h _ ih =>
    rw [List.forall_mem_cons, List.forall_mem_cons, ih]
    exact and_congr_left fun _ => ⟨h.admissible, h.symm.admissible⟩

theorem Shuffled.admissible_iff {update update' : Document} (h : Shuffled update update') :
    Admissible update ↔ Admissible update' := by
  obtain ⟨operators, hsame, hperm⟩ := h
  have hempty : update = [] ↔ update' = [] := by
    rw [← List.length_eq_zero_iff, hsame.length_eq, hperm.length_eq, List.length_eq_zero_iff]
  unfold Admissible
  rw [forall_admissible_iff hsame, Ne, hempty]
  exact and_congr_right fun _ => forall_congr' fun e => by rw [hperm.mem_iff]

theorem Shuffled.edits {update update' : Document} (h : Shuffled update update') :
    (edits update).Perm (edits update') := by
  obtain ⟨operators, hsame, hperm⟩ := h
  refine List.Perm.trans ?_ (hperm.flatMap_right _)
  clear hperm
  induction hsame with
  | nil => exact .refl _
  | cons h _ ih => exact h.operatorEdits.append ih

/-- An update whose edits are at places apart goes through exactly if it is admissible and no set
finds anything but documents on its way. -/
theorem goes_through_iff {update : Document} (hes : Independent (edits update)) (d : Document) :
    (∃ c, (apply update d).result = .ok c) ↔
      Admissible update ∧ ∀ e ∈ edits update, e.Fits d := by
  rw [← hes.exists_run_iff d false]
  constructor
  · rintro ⟨c, hc⟩
    obtain ⟨hadmissible, hrun⟩ := apply_eq_ok_iff.mp (progress_of_result hc)
    exact ⟨hadmissible, _, hrun⟩
  · rintro ⟨hadmissible, ⟨d', c⟩, hrun⟩
    exact ⟨c, by rw [apply_eq_ok_iff.mpr ⟨hadmissible, hrun⟩]⟩

/-- Two ways in which the same edits were made leave the same document but for the order of
fields. -/
theorem Edited.sameOutlines {es fs : List Edit} {d d' d'' : Document} (h : Edited es d d')
    (h' : Edited fs d d'') (hsame : ∀ e, e ∈ es ↔ e ∈ fs) :
    Value.SameOutlines (.document d') (.document d'') := by
  intro names
  by_cases hbehind : ∃ e ∈ es, e.names <+: names
  · obtain ⟨e, he, rest, rfl⟩ := hbehind
    have hsettled := h.settled e he
    have hsettled' := h'.settled e ((hsame e).mp he)
    unfold Edit.Settled at hsettled hsettled'
    rw [Value.descend_append, Value.descend_append, hsettled, hsettled']
  · -- only sets make documents in front of their paths, removals leave what is there
    by_cases hfront : ∃ e ∈ es, e.value.isSome ∧ names <+: e.names
    · obtain ⟨e, he, hset, hnames⟩ := hfront
      have hne : names ≠ e.names := by
        rintro rfl
        exact hbehind ⟨e, he, List.prefix_refl _⟩
      exact (h.inFront e he hset names hnames hne).trans
        (h'.inFront e ((hsame e).mp he) hset names hnames hne).symm
    · have hes : outlineAt d' names = outlineAt d names :=
        h.elsewhere names (fun e he hnames => hbehind ⟨e, he, hnames⟩)
          fun e he hset hnames => hfront ⟨e, he, hset, hnames⟩
      have hfs : outlineAt d'' names = outlineAt d names :=
        h'.elsewhere names (fun e he hnames => hbehind ⟨e, (hsame e).mpr he, hnames⟩)
          fun e he hset hnames => hfront ⟨e, (hsame e).mpr he, hset, hnames⟩
      exact hes.trans hfs.symm

/-- The order in which an update names its operators, and the fields under them, does not matter if
its paths are apart from one another: it goes through or not, it counts as a change or not, and it
leaves the same document, the order of fields aside. Whether it goes through is told by the
update itself and by the document as it is before. -/
theorem apply_shuffled {update update' d : Document}
    (hupdate : (Value.document update).WellFormed) (hd : (Value.document d).WellFormed)
    (hes : Independent (edits update)) (h : Shuffled update update') :
    ((∃ c, (apply update d).result = .ok c) ↔
      Admissible update ∧ ∀ e ∈ edits update, e.Fits d) ∧
    ((∃ c, (apply update' d).result = .ok c) ↔ ∃ c, (apply update d).result = .ok c) ∧
    ∀ c, (apply update d).result = .ok c → (apply update' d).result = .ok c ∧
      Value.Reordered (.document (apply update d).document)
        (.document (apply update' d).document) := by
  have hperm := h.edits
  have hes' : Independent (edits update') :=
    (hperm.pairwise_iff fun hapart => hapart.symm).mp hes
  have hboth : (∃ c, (apply update' d).result = .ok c) ↔ ∃ c, (apply update d).result = .ok c := by
    rw [goes_through_iff hes, goes_through_iff hes', h.admissible_iff]
    exact and_congr_right fun _ => forall_congr' fun e => by rw [hperm.mem_iff]
  refine ⟨goes_through_iff hes d, hboth, fun c hc => ?_⟩
  obtain ⟨c', hc'⟩ := hboth.mpr ⟨c, hc⟩
  obtain ⟨-, hrun⟩ := apply_eq_ok_iff.mp (progress_of_result hc)
  obtain ⟨-, hrun'⟩ := apply_eq_ok_iff.mp (progress_of_result hc')
  obtain ⟨hedited, hchanges⟩ := hes.edited hrun
  obtain ⟨hedited', hchanges'⟩ := hes'.edited hrun'
  have hsame : c' = c := by
    rw [hchanges, hchanges', hperm.any_eq]
  have hvalues : ∀ e ∈ edits update, ∀ v, e.value = some v → v.WellFormed :=
    fun e he v hv => wellFormed_of_mem_edits hupdate he hv
  have hvalues' : ∀ e ∈ edits update', ∀ v, e.value = some v → v.WellFormed :=
    fun e he => hvalues e (hperm.mem_iff.mpr he)
  refine ⟨hsame ▸ hc', Value.reordered_of_outlines _ _ (Edit.wellFormed_run hvalues hd hrun)
    (Edit.wellFormed_run hvalues' hd hrun') (hedited.sameOutlines hedited' fun e => hperm.mem_iff)⟩

/-- An item in its place. -/
def crate : Document :=
  [("_id", .int32 1), ("place", .document [("row", .int32 2), ("shelf", .int32 3)])]

/-- Puts it on another shelf, forgets its row and takes down its size. -/
def move : Document :=
  [("$set", .document
      [("place.shelf", .int32 4), ("size.height", .int32 9), ("size.width", .int32 5)]),
    ("$unset", .document [("place.row", .null)])]

/-- The same from the end to the beginning. -/
def moveBackwards : Document :=
  [("$unset", .document [("place.row", .null)]),
    ("$set", .document
      [("size.width", .int32 5), ("size.height", .int32 9), ("place.shelf", .int32 4)])]

theorem wellFormed_crate : (Value.document crate).WellFormed := by
  simp [crate, Value.WellFormed, Value.WellFormedFields, Keyed.keys]

theorem wellFormed_move : (Value.document move).WellFormed := by
  simp [move, Value.WellFormed, Value.WellFormedFields, Keyed.keys]

theorem independent_move : Independent (edits move) := by decide

theorem shuffled_move : Shuffled move moveBackwards :=
  ⟨moveBackwards.reverse,
    .cons ⟨rfl, .inr ⟨_, _, rfl, rfl, (List.reverse_perm _).symm⟩⟩ (.cons ⟨rfl, .inl rfl⟩ .nil),
    List.reverse_perm _⟩

/-- The height of the crate comes before its width, or behind it. -/
theorem apply_shuffled_move :
    (apply move crate).result = .ok true ∧ (apply moveBackwards crate).result = .ok true ∧
      Value.Reordered (.document (apply move crate).document)
        (.document (apply moveBackwards crate).document) ∧
      ∀ e ∈ edits move, e.Fits crate := by
  obtain ⟨hfits, -, hsame⟩ :=
    apply_shuffled wellFormed_move wellFormed_crate independent_move shuffled_move
  have hresult : (apply move crate).result = .ok true := by rfl
  exact ⟨hresult, (hsame true hresult).1, (hsame true hresult).2, (hfits.mp ⟨true, hresult⟩).2⟩

/-! ## The same update again -/

/-- A set finds its own value, and a removal finds nothing. -/
theorem Edit.apply_settled {e : Edit} {d : Document} (h : e.Settled d)
    (hself : ∀ v, e.value = some v → v.alike v = true) : e.apply d = some (d, false) := by
  obtain ⟨path, _ | v⟩ := e
  · exact congrArg some (unsetAt_of_descend h)
  · rw [apply_set, setAt_of_descend (segments_ne_nil path) h, hself v rfl]
    rfl

theorem run_settled {es : List Edit} {d : Document} (h : ∀ e ∈ es, e.Settled d)
    (hself : ∀ e ∈ es, ∀ v, e.value = some v → v.alike v = true) :
    es.foldlM Edit.step (d, false) = some (d, false) := by
  induction es with
  | nil => rfl
  | cons e es ih =>
    rw [List.forall_mem_cons] at h hself
    exact Edit.run_cons.mpr ⟨d, false, Edit.apply_settled h.1 hself.1, ih h.2 hself.2⟩

/-- An update that has gone through, with its paths apart from one another and no doubles among its
values, finds all as it is to be: a second time it goes through, changes nothing and says so. -/
theorem apply_again {update d : Document} {c : Bool}
    (hupdate : (Value.document update).WellFormed) (hes : Independent (edits update))
    (hdoubles : ∀ e ∈ edits update, ∀ v, e.value = some v → v.hasDouble = false)
    (h : (apply update d).result = .ok c) :
    apply update (apply update d).document = ⟨(apply update d).document, .ok false⟩ := by
  obtain ⟨hadmissible, hrun⟩ := apply_eq_ok_iff.mp (progress_of_result h)
  have hsettled := (hes.edited hrun).1.settled
  exact apply_eq_ok_iff.mpr ⟨hadmissible, run_settled hsettled fun e he v hv =>
    Value.alike_self (wellFormed_of_mem_edits hupdate he hv) (hdoubles e he v hv)⟩

/-- Moved once, the crate is in its place. -/
theorem apply_again_move :
    apply move (apply move crate).document = ⟨(apply move crate).document, .ok false⟩ := by
  have hresult : (apply move crate).result = .ok true := by rfl
  refine apply_again wellFormed_move independent_move ?_ hresult
  simp [edits, operatorEdits, move, Value.fields?, Value.hasDouble]

end Update

end DocQuery
