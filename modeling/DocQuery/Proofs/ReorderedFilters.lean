import DocQuery.Proofs.FieldOrder
import DocQuery.Proofs.FilterLanguage

/-
  Filter documents whose fields stand in another order. `parse_reordered`: they are accepted as
  before, and match a reordered document as before.

  The parser stops at the first thing that is malformed, so its errors do depend on the order, and
  the trees that it makes are reordered as well. The language of filters says the same without
  either: every rule of it goes through the fields one by one, and each is kept by reordering the
  fields (`test_perm`) and what is inside of them (by induction on the reordering).
-/

namespace DocQuery

/-! ## What is well formed -/

namespace FilterLanguage

open Value
open DocQuery.Filter (isOperatorKey isOperatorDocument isOperatorValue)

theorem isEmpty_of_length_eq {α : Type} {xs ys : List α} (h : xs.length = ys.length) :
    xs.isEmpty = ys.isEmpty := by
  rw [Bool.eq_iff_iff, List.isEmpty_iff_length_eq_zero, List.isEmpty_iff_length_eq_zero, h]

theorem isOperatorDocument_reordered {xs zs ys : List (String × Value)}
    (h : ReorderedFields xs zs) (hperm : zs.Perm ys) :
    isOperatorDocument xs = isOperatorDocument ys := by
  have hempty := isEmpty_of_length_eq (h.length_eq.trans hperm.length_eq)
  have hkeys : (Keyed.keys xs).all isOperatorKey = (Keyed.keys ys).all isOperatorKey := by
    rw [h.keys_eq]
    exact (hperm.map Prod.fst).all_eq
  unfold isOperatorDocument
  rw [hempty, hkeys]

theorem isOperatorValue_reordered {v w : Value} (h : Reordered v w) :
    isOperatorValue v = isOperatorValue w := by
  cases h with
  | refl | array | scopedCode => rfl
  | document h hperm => exact isOperatorDocument_reordered h hperm

theorem isOperatorArray_reordered {xs ys : List Value} (h : ReorderedItems xs ys) :
    isOperatorArray xs = isOperatorArray ys := by
  unfold isOperatorArray
  rw [isEmpty_of_length_eq h.length_eq, h.all_eq fun _ _ _ hv => isOperatorValue_reordered hv]

theorem operatorsFormed_perm (depth : Nat) {zs ys : List (String × Value)} (h : zs.Perm ys) :
    operatorsFormed depth zs = operatorsFormed depth ys :=
  test_perm (operatorsFormed depth) (fun e ops => by rw [operatorsFormed]) h

mutual

theorem operatorsFormed_reordered (depth : Nat) : {xs zs : List (String × Value)} →
    ReorderedFields xs zs → operatorsFormed depth xs = operatorsFormed depth zs
  | _, _, .nil => rfl
  | _, _, .cons op hv h => by
    rw [operatorsFormed, operatorsFormed, operatorFormed_reordered depth op hv,
      operatorsFormed_reordered depth h]

theorem operatorFormed_reordered (depth : Nat) (op : String) : {v w : Value} → Reordered v w →
    operatorFormed depth op v = operatorFormed depth op w
  | _, _, .refl v => rfl
  | _, _, .array h => by
    unfold operatorFormed
    dsimp only
    rw [h.length_eq]
  | _, _, .document h hperm => by
    unfold operatorFormed
    dsimp only
    rw [isOperatorDocument_reordered h hperm, operatorsFormed_reordered (depth + 1) h,
      operatorsFormed_perm (depth + 1) hperm]
  | _, _, .scopedCode _ _ _ => rfl

end

theorem operatorDocumentFormed_reordered (depth : Nat) {v w : Value} (h : Reordered v w) :
    operatorDocumentFormed depth v = operatorDocumentFormed depth w := by
  cases h with
  | refl | array | scopedCode => rfl
  | document h hperm =>
    rw [operatorDocumentFormed, operatorDocumentFormed, operatorsFormed_reordered depth h,
      operatorsFormed_perm depth hperm]

theorem fieldFormed_reordered (depth : Nat) {v w : Value} (h : Reordered v w) :
    fieldFormed depth v = fieldFormed depth w := by
  have hdocument := operatorDocumentFormed_reordered depth h
  cases h with
  | refl | scopedCode => rfl
  | array h =>
    rw [fieldFormed, fieldFormed, isOperatorArray_reordered h,
      h.all_eq fun _ _ _ hv => operatorDocumentFormed_reordered depth hv]
  | document h hperm =>
    rw [fieldFormed, fieldFormed, isOperatorDocument_reordered h hperm, hdocument]

theorem entriesFormed_perm (depth : Nat) {zs ys : List (String × Value)} (h : zs.Perm ys) :
    entriesFormed depth zs = entriesFormed depth ys :=
  test_perm (entriesFormed depth) (fun e q => by rw [entriesFormed]) h

mutual

theorem entriesFormed_reordered (depth : Nat) : {xs zs : List (String × Value)} →
    ReorderedFields xs zs → entriesFormed depth xs = entriesFormed depth zs
  | _, _, .nil => rfl
  | _, _, .cons key hv h => by
    rw [entriesFormed, entriesFormed, entryFormed_reordered depth key hv,
      entriesFormed_reordered depth h]

theorem entryFormed_reordered (depth : Nat) (key : String) : {v w : Value} → Reordered v w →
    entryFormed depth key v = entryFormed depth key w
  | _, _, .refl v => rfl
  | _, _, .array h => by
    unfold entryFormed
    rw [fieldFormed_reordered depth (.array h)]
    dsimp only
    rw [membersFormed_reordered (depth + 1) h]
  | _, _, .document h hperm => by
    unfold entryFormed
    rw [fieldFormed_reordered depth (.document h hperm)]
  | _, _, .scopedCode _ _ _ => rfl

theorem membersFormed_reordered (depth : Nat) : {xs ys : List Value} → ReorderedItems xs ys →
    membersFormed depth xs = membersFormed depth ys
  | _, _, .nil => rfl
  | _, _, .cons (.refl v) h => by
    cases v with
    | document fields => rw [membersFormed, membersFormed, membersFormed_reordered depth h]
    | _ => rfl
  | _, _, .cons (.document hfields hperm) h => by
    rw [membersFormed, membersFormed, entriesFormed_reordered depth hfields,
      entriesFormed_perm depth hperm, membersFormed_reordered depth h]
  | _, _, .cons (.array _) _ => rfl
  | _, _, .cons (.scopedCode _ _ _) _ => rfl

end

theorem formed_reordered (depth : Nat) {q q' : Document}
    (h : Reordered (.document q) (.document q')) : formed depth q = formed depth q' := by
  cases h with
  | refl => rfl
  | document h hperm =>
    rw [formed, formed, entriesFormed_reordered depth h, entriesFormed_perm depth hperm]

/-! ## What it means -/

section Meaning

variable (found : Option Value)

theorem holds_operand_reordered (op : FilterOp) {w w' : Value} (h : Reordered w w')
    (hw : w.WellFormed) : op.holds found w = op.holds found w' := by
  cases found with
  | none => cases op <;> rfl
  | some v => cases op <;> simp only [FilterOp.holds, alike_right v h hw, compare?_right v h]

theorem truthy_reordered {w w' : Value} (h : Reordered w w') :
    Filter.truthy w = Filter.truthy w' := by
  cases h <;> rfl

theorem leafHolds_reordered {w w' : Value} (h : Reordered w w') (hw : w.WellFormed)
    (op : String) : leafHolds found w op = leafHolds found w' op := by
  have hholds := fun op => holds_operand_reordered found op h hw
  unfold leafHolds
  split
  · exact hholds .eq
  · exact hholds .ne
  · exact hholds .gt
  · exact hholds .gte
  · exact hholds .lt
  · exact hholds .lte
  · rw [truthy_reordered h]
  · rfl

theorem isAmong_operand_reordered {xs ys : List Value} (h : ReorderedItems xs ys)
    (hw : WellFormedItems xs) : Filter.isAmong found xs = Filter.isAmong found ys := by
  cases found with
  | none => rfl
  | some v => exact h.any_eq fun x _ hx hr => alike_right v hr (wellFormed_of_mem hw hx)

theorem setHolds_reordered {xs ys : List Value} (h : ReorderedItems xs ys)
    (hw : WellFormedItems xs) (op : String) : setHolds found xs op = setHolds found ys op := by
  unfold setHolds
  rw [isAmong_operand_reordered found h hw]

theorem operatorTruths_perm {zs ys : List (String × Value)} (h : zs.Perm ys) :
    (operatorTruths found zs).all id = (operatorTruths found ys).all id :=
  test_perm (fun ops => (operatorTruths found ops).all id)
    (fun e ops => by rw [operatorTruths, List.all_cons, id]) h

mutual

theorem operatorTruths_reordered : {xs zs : List (String × Value)} → ReorderedFields xs zs →
    WellFormedFields xs → operatorTruths found xs = operatorTruths found zs
  | _, _, .nil, _ => rfl
  | _, _, .cons op hv h, hw => by
    rw [WellFormedFields] at hw
    rw [operatorTruths, operatorTruths, operatorHolds_reordered op hv hw.1,
      operatorTruths_reordered h hw.2]

theorem operatorHolds_reordered (op : String) : {v w : Value} → Reordered v w → v.WellFormed →
    operatorHolds found op v = operatorHolds found op w
  | _, _, .refl v, _ => rfl
  | _, _, .array h, hw => by
    unfold operatorHolds
    rw [leafHolds_reordered found (.array h) hw]
    rw [WellFormed] at hw
    dsimp only
    rw [setHolds_reordered found h hw]
  | _, _, .document h hperm, hw => by
    unfold operatorHolds
    rw [leafHolds_reordered found (.document h hperm) hw]
    rw [WellFormed] at hw
    dsimp only
    rw [operatorTruths_reordered h hw.2, operatorTruths_perm found hperm]
  | _, _, .scopedCode text h hperm, hw => by
    unfold operatorHolds
    rw [leafHolds_reordered found (.scopedCode text h hperm) hw]

end

theorem operatorDocumentHolds_reordered {v w : Value} (h : Reordered v w) (hw : v.WellFormed) :
    operatorDocumentHolds found v = operatorDocumentHolds found w := by
  cases h with
  | refl | array | scopedCode => rfl
  | document h hperm =>
    rw [WellFormed] at hw
    rw [operatorDocumentHolds, operatorDocumentHolds, operatorTruths_reordered found h hw.2,
      operatorTruths_perm found hperm]

theorem fieldHolds_reordered {v w : Value} (h : Reordered v w) (hw : v.WellFormed) :
    fieldHolds found v = fieldHolds found w := by
  have hliteral := holds_operand_reordered found .eq h hw
  have hdocument := operatorDocumentHolds_reordered found h hw
  cases h with
  | refl => rfl
  | array h =>
    rw [WellFormed] at hw
    have hitems := h.all_eq fun v _ hv hr =>
      operatorDocumentHolds_reordered found hr (wellFormed_of_mem hw hv)
    rw [fieldHolds, fieldHolds, isOperatorArray_reordered h, hitems, hliteral]
  | document h hperm =>
    rw [fieldHolds, fieldHolds, isOperatorDocument_reordered h hperm, hdocument, hliteral]
  | scopedCode => exact hliteral

end Meaning

theorem entryTruths_perm (d : Document) {zs ys : List (String × Value)} (h : zs.Perm ys) :
    (entryTruths d zs).all id = (entryTruths d ys).all id :=
  test_perm (fun q => (entryTruths d q).all id)
    (fun e q => by rw [entryTruths, List.all_cons, id]) h

mutual

theorem entryTruths_reordered (d : Document) : {xs zs : List (String × Value)} →
    ReorderedFields xs zs → WellFormedFields xs → entryTruths d xs = entryTruths d zs
  | _, _, .nil, _ => rfl
  | _, _, .cons key hv h, hw => by
    rw [WellFormedFields] at hw
    rw [entryTruths, entryTruths, entryHolds_reordered d key hv hw.1,
      entryTruths_reordered d h hw.2]

theorem entryHolds_reordered (d : Document) (key : String) : {v w : Value} → Reordered v w →
    v.WellFormed → entryHolds d key v = entryHolds d key w
  | _, _, .refl v, _ => rfl
  | _, _, .array h, hw => by
    unfold entryHolds
    rw [fieldHolds_reordered _ (.array h) hw]
    rw [WellFormed] at hw
    dsimp only
    rw [memberTruths_reordered d h hw]
  | _, _, .document h hperm, hw => by
    unfold entryHolds
    rw [fieldHolds_reordered _ (.document h hperm) hw]
  | _, _, .scopedCode text h hperm, hw => by
    unfold entryHolds
    rw [fieldHolds_reordered _ (.scopedCode text h hperm) hw]

theorem memberTruths_reordered (d : Document) : {xs ys : List Value} → ReorderedItems xs ys →
    WellFormedItems xs → memberTruths d xs = memberTruths d ys
  | _, _, .nil, _ => rfl
  | _, _, .cons (.refl v) h, hw => by
    rw [WellFormedItems] at hw
    cases v with
    | document fields => rw [memberTruths, memberTruths, memberTruths_reordered d h hw.2]
    | _ => simpa [memberTruths] using memberTruths_reordered d h hw.2
  | _, _, .cons (.document hfields hperm) h, hw => by
    rw [WellFormedItems, WellFormed] at hw
    rw [memberTruths, memberTruths, entryTruths_reordered d hfields hw.1.2,
      entryTruths_perm d hperm, memberTruths_reordered d h hw.2]
  | _, _, .cons (.array _) h, hw => by
    rw [WellFormedItems] at hw
    simpa [memberTruths] using memberTruths_reordered d h hw.2
  | _, _, .cons (.scopedCode _ _ _) h, hw => by
    rw [WellFormedItems] at hw
    simpa [memberTruths] using memberTruths_reordered d h hw.2

end

theorem holds_reordered (d : Document) {q q' : Document}
    (h : Reordered (.document q) (.document q')) (hq : (Value.document q).WellFormed) :
    holds d q = holds d q' := by
  cases h with
  | refl => rfl
  | document h hperm =>
    rw [WellFormed] at hq
    rw [holds, holds, entryTruths_reordered d h hq.2, entryTruths_perm d hperm]

end FilterLanguage

namespace Filter

open Value (Reordered)

/-- The order of fields does not matter to matching. Of two filter documents that differ only in
the order of fields, here or inside of any operand, both are accepted or neither is; and if they
are, one matches a document just if the other matches a reordering of it. -/
theorem parse_reordered {q q' d d' : Document}
    (hq : Reordered (.document q) (.document q')) (hqw : (Value.document q).WellFormed)
    (hd : Reordered (.document d) (.document d')) (hdw : (Value.document d).WellFormed) :
    ((∃ f, parse q = .ok f) ↔ ∃ f, parse q' = .ok f) ∧
      ∀ f f', parse q = .ok f → parse q' = .ok f' → f.eval d = f'.eval d' := by
  have hreads := parseAt_reads 0 q
  have hreads' := parseAt_reads 0 q'
  constructor
  · have hformed := FilterLanguage.formed_reordered 0 hq
    exact hreads.accepted_iff.trans (hformed ▸ hreads'.accepted_iff.symm)
  · intro f f' hf hf'
    calc f.eval d = f.eval d' := eval_reordered hd hdw f
      _ = FilterLanguage.holds d' q := hreads.eval_eq hf d'
      _ = FilterLanguage.holds d' q' := FilterLanguage.holds_reordered d' hq hqw
      _ = f'.eval d' := (hreads'.eval_eq hf' d').symm

def box : Value :=
  .document [("width", .int32 2), ("parts", .array [.document [("lid", .null), ("key", .int32 1)]])]

/-- The same box with its fields turned round, and those of its part. -/
def turnedBox : Value :=
  .document [("parts", .array [.document [("key", .int32 1), ("lid", .null)]]), ("width", .int32 2)]

theorem box_reordered : Reordered box turnedBox :=
  .document (.cons "width" (.refl _)
    (.cons "parts" (.array (.cons (.of_perm (.swap _ _ _)) .nil)) .nil)) (.swap _ _ _)

theorem wellFormed_box : box.WellFormed := by
  simp [box, Value.WellFormed, Value.WellFormedFields, Value.WellFormedItems, Keyed.keys]

/-- Fields that change places in a filter document, among its operators and in its operand, and in
the document that it matches. -/
theorem parse_reordered_box :
    let q : Document := [("box", box), ("stock", .document [("$gt", .int32 1), ("$lt", .int32 9)])]
    let q' : Document :=
      [("stock", .document [("$lt", .int32 9), ("$gt", .int32 1)]), ("box", turnedBox)]
    let d : Document := [("stock", .int32 5), ("box", box)]
    let d' : Document := [("box", turnedBox), ("stock", .int32 5)]
    (Reordered (.document q) (.document q') ∧ (Value.document q).WellFormed) ∧
      (Reordered (.document d) (.document d') ∧ (Value.document d).WellFormed) ∧
      ∃ f f', parse q = .ok f ∧ parse q' = .ok f' ∧ f.eval d = true ∧ f'.eval d' = true := by
  intro q q' d d'
  have hq : Reordered (.document q) (.document q') :=
    .document (.cons "box" box_reordered (.cons "stock" (.of_perm (.swap _ _ _)) .nil))
      (.swap _ _ _)
  have hd : Reordered (.document d) (.document d') :=
    .document (.cons "stock" (.refl _) (.cons "box" box_reordered .nil)) (.swap _ _ _)
  have hqw : (Value.document q).WellFormed := by
    simp [q, wellFormed_box, Value.WellFormed, Value.WellFormedFields, Keyed.keys]
  have hdw : (Value.document d).WellFormed := by
    simp [d, wellFormed_box, Value.WellFormed, Value.WellFormedFields, Keyed.keys]
  obtain ⟨haccepted, hmatches⟩ := parse_reordered hq hqw hd hdw
  have hreads := parseAt_reads 0 q
  obtain ⟨f, hf⟩ := hreads.accepted_iff.mpr (by rfl)
  obtain ⟨f', hf'⟩ := haccepted.mp ⟨f, hf⟩
  have htrue : f.eval d = true := (hreads.eval_eq hf d).trans (by rfl)
  exact ⟨⟨hq, hqw⟩, ⟨hd, hdw⟩, f, f', hf, hf', htrue, (hmatches f f' hf hf').symm.trans htrue⟩

end Filter
end DocQuery
