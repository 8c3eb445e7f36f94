import DocQuery.Filter
import Mathlib.Data.String.Basic
import Mathlib.Order.Compare

/-
  The six comparison operators and the order of values. Integers of either width, strings, truth
  values and points in time are four classes, each with an order of its own; `Stands` says how two
  values of one class stand to each other. Equality and order are two functions with cases of their
  own, so the work is to show that both say of two such values what `Stands` says, and that of all
  others the order says nothing.

  Doubles are left out: they are compared with integers as doubles, which is a class of its own with
  a value that is unequal to itself.
-/

namespace DocQuery

namespace Value

/-- The code points of a text, from its beginning. -/
def codePoints (s : String) : List Nat := s.toList.map Char.toNat

/-- The number that an integer of either width stands for. -/
inductive IsInteger : Value → Int → Prop
  | narrow (n : Int32) : IsInteger (int32 n) n.toInt
  | wide (n : Int64) : IsInteger (int64 n) n.toInt

/-- How two values of one class stand to each other. -/
inductive Stands : Value → Value → Ordering → Prop
  | integers {v w : Value} {m n : Int} : IsInteger v m → IsInteger w n → Stands v w (cmp m n)
  | strings (s t : String) : Stands (string s) (string t) (cmp (codePoints s) (codePoints t))
  /-- The false one is the lesser. -/
  | bools (p q : Bool) : Stands (bool p) (bool q) (cmp p.toNat q.toNat)
  | moments (s t : Int64) : Stands (dateTime s) (dateTime t) (cmp s.toInt t.toInt)

/-- Whether the value is a double. -/
def isDouble : Value → Bool
  | double _ => true
  | _ => false

theorem isInteger_iff {v : Value} {n : Int} : IsInteger v n ↔ v.toInt? = some n := by
  constructor
  · rintro (_ | _) <;> rfl
  · intro h
    cases v with
    | int32 => cases h; exact .narrow _
    | int64 => cases h; exact .wide _
    | _ => cases h

/-- The order of texts is the one of their code points. -/
theorem codePoints_lt_iff {s t : String} : codePoints s < codePoints t ↔ s < t := by
  have hmono : StrictMono codePoints := by
    intro s t h
    rw [String.lt_iff_toList_lt] at h
    exact List.map_lt (fun _ _ hlt => hlt) h
  exact hmono.lt_iff_lt

theorem cmp_codePoints (s t : String) : cmp (codePoints s) (codePoints t) = cmp s t := by
  unfold cmp cmpUsing
  simp only [codePoints_lt_iff]

theorem cmp_toNat (p q : Bool) : cmp p.toNat q.toNat = cmp p q := by
  cases p <;> cases q <;> rfl

/-! ## Order -/

theorem compare?_of_stands {v w : Value} {o : Ordering} (h : Stands v w o) :
    v.compare? w = some o := by
  cases h with
  | integers hv hw =>
    rw [isInteger_iff] at hv hw
    unfold compare?
    rw [hv, hw, cmp_eq_compare]
  | strings s t =>
    rw [cmp_codePoints, cmp_eq_compare]
    rfl
  | bools p q =>
    rw [cmp_toNat, cmp_eq_compare]
    rfl
  | moments s t =>
    rw [cmp_eq_compare]
    rfl

theorem toInt?_of_toDouble? {v : Value} (h : v.isDouble = false) {x : Double}
    (hx : v.toDouble? = some x) : ∃ n, v.toInt? = some n := by
  cases v with
  | int32 | int64 => exact ⟨_, rfl⟩
  | double => cases h
  | _ => cases hx

/-- Of values that are no doubles, only those of one class are ordered. -/
theorem stands_of_compare? {v w : Value} {o : Ordering} (hv : v.isDouble = false)
    (hw : w.isDouble = false) (h : v.compare? w = some o) : Stands v w o := by
  unfold compare? at h
  split at h
  · next m n hm hn =>
    cases h
    rw [← cmp_eq_compare]
    exact .integers (isInteger_iff.mpr hm) (isInteger_iff.mpr hn)
  · next hints =>
    split at h
    · -- without doubles both are integers after all, and were compared as such
      next x y hx hy =>
      obtain ⟨m, hm⟩ := toInt?_of_toDouble? hv hx
      obtain ⟨n, hn⟩ := toInt?_of_toDouble? hw hy
      exact absurd hn (hints m n hm)
    · split at h
      · next s t _ =>
        have hstands := Stands.strings s t
        rw [cmp_codePoints, cmp_eq_compare] at hstands
        cases h
        exact hstands
      · next p q _ =>
        have hstands := Stands.bools p q
        rw [cmp_toNat, cmp_eq_compare] at hstands
        cases h
        exact hstands
      · next s t _ =>
        have hstands := Stands.moments s t
        rw [cmp_eq_compare] at hstands
        cases h
        exact hstands
      · cases h

/-- Seen from the other side, the order is turned round. -/
theorem Stands.swap {v w : Value} {o : Ordering} (h : Stands v w o) : Stands w v o.swap := by
  cases h with
  | integers hv hw =>
    rw [cmp_swap]
    exact .integers hw hv
  | strings s t =>
    rw [cmp_swap]
    exact .strings t s
  | bools p q =>
    rw [cmp_swap]
    exact .bools q p
  | moments s t =>
    rw [cmp_swap]
    exact .moments t s

theorem compare?_swap {v w : Value} (hv : v.isDouble = false) (hw : w.isDouble = false) :
    w.compare? v = (v.compare? w).map Ordering.swap := by
  cases h : v.compare? w with
  | some o => exact compare?_of_stands (stands_of_compare? hv hw h).swap
  | none =>
    rw [Option.map_none, Option.eq_none_iff_forall_ne_some]
    intro o ho
    have hback := compare?_of_stands (stands_of_compare? hw hv ho).swap
    rw [h] at hback
    cases hback

/-! ## Equality -/

theorem isEq_cmp {α : Type} [LinearOrder α] [BEq α] [LawfulBEq α] (a b : α) :
    (cmp a b).isEq = (a == b) := by
  rw [Bool.eq_iff_iff, Ordering.isEq_iff_eq_eq, cmp_eq_eq_iff, beq_iff_eq]

/-- Integers are equal as numbers, whatever their widths. -/
theorem alike_integers {v w : Value} {m n : Int} (hv : IsInteger v m) (hw : IsInteger w n) :
    v.alike w = (m == n) := by
  rw [Bool.eq_iff_iff, beq_iff_eq]
  cases hv with
  | narrow x =>
    cases hw with
    | narrow y => simp [alike, same, Int32.toInt_inj]
    | wide y => simp [alike]
  | wide x =>
    cases hw with
    | narrow y => simp [alike]
    | wide y => simp [alike, same, Int64.toInt_inj]

theorem alike_of_stands {v w : Value} {o : Ordering} (h : Stands v w o) :
    v.alike w = o.isEq := by
  cases h with
  | integers hv hw => rw [alike_integers hv hw, isEq_cmp]
  | strings s t =>
    rw [cmp_codePoints, isEq_cmp]
    simp [alike, same]
  | bools p q =>
    rw [cmp_toNat, isEq_cmp]
    simp [alike, same]
  | moments s t =>
    rw [isEq_cmp, Bool.eq_iff_iff, beq_iff_eq, Int64.toInt_inj]
    simp [alike, same]

end Value

/-! ## The operators -/

namespace FilterOp

/-- Of a value and an operand that stand so to each other, one of the operators for less, equal and
greater is true, and the others are made of these. -/
structure Ordered (holds : FilterOp → Bool) (o : Ordering) : Prop where
  lt : holds .lt = o.isLT
  eq : holds .eq = o.isEq
  gt : holds .gt = o.isGT
  one : [FilterOp.lt, .eq, .gt].countP holds = 1
  lte : holds .lte = (holds .lt || holds .eq)
  gte : holds .gte = (holds .gt || holds .eq)
  ne : holds .ne = !holds .eq

/-- No operator on the order is true, and a value is still equal or unequal. -/
structure Unordered (holds : FilterOp → Bool) : Prop where
  lt : holds .lt = false
  lte : holds .lte = false
  gt : holds .gt = false
  gte : holds .gte = false
  ne : holds .ne = !holds .eq

theorem ordered_of_stands {v operand : Value} {o : Ordering} (h : v.Stands operand o) :
    Ordered (fun op => op.holds (some v) operand) o := by
  have hcompare := Value.compare?_of_stands h
  have halike := Value.alike_of_stands h
  constructor
  all_goals simp only [holds, hcompare, halike, List.countP_cons, List.countP_nil]
  all_goals cases o <;> rfl

theorem unordered_of_compare? {v operand : Value} (h : v.compare? operand = none) :
    Unordered fun op => op.holds (some v) operand := by
  constructor
  all_goals simp [holds, h]

theorem unordered_none (operand : Value) : Unordered fun op => op.holds none operand :=
  ⟨rfl, rfl, rfl, rfl, rfl⟩

end FilterOp

namespace Filter

/-- The comparison operators, where neither the operand nor what the path leads to is a double. If
the two are of one class, the operators say how they stand to each other; if they are not, or the
path leads nowhere, no operator on the order is true. With the two exchanged, less is greater. -/
theorem comparison_operators {d : Document} {path : String} {operand : Value}
    (hoperand : operand.isDouble = false)
    (hfound : ∀ v, FieldPath.find? d path = some v → v.isDouble = false) :
    (∀ v o, FieldPath.find? d path = some v → v.Stands operand o →
      FilterOp.Ordered (fun op => (compare path op operand).eval d) o) ∧
    ((∀ v o, FieldPath.find? d path = some v → ¬ v.Stands operand o) →
      FilterOp.Unordered fun op => (compare path op operand).eval d) ∧
    ∀ v d' path', FieldPath.find? d path = some v → FieldPath.find? d' path' = some operand →
      (compare path' .lt v).eval d' = (compare path .gt operand).eval d ∧
        (compare path' .gt v).eval d' = (compare path .lt operand).eval d := by
  refine ⟨?_, ?_, ?_⟩
  · intro v o hv hstands
    simp only [eval, hv]
    exact FilterOp.ordered_of_stands hstands
  · intro hnone
    simp only [eval]
    rcases hv : FieldPath.find? d path with _ | v
    · exact FilterOp.unordered_none operand
    · apply FilterOp.unordered_of_compare?
      rw [Option.eq_none_iff_forall_ne_some]
      intro o ho
      exact hnone v o hv (Value.stands_of_compare? (hfound v hv) hoperand ho)
  · intro v d' path' hv hd'
    simp only [eval, hv, hd', FilterOp.holds, Value.compare?_swap (hfound v hv) hoperand]
    cases v.compare? operand with
    | none => exact ⟨rfl, rfl⟩
    | some o => cases o <;> exact ⟨rfl, rfl⟩

/-- Two neighbours that are the same number as doubles, and of which one is greater. -/
theorem comparison_operators_neighbours :
    let d : Document := [("n", .int64 9007199254740993)]
    let operand : Value := .int64 9007199254740992
    operand.isDouble = false ∧
      (∀ v, FieldPath.find? d "n" = some v → v.isDouble = false) ∧
      FilterOp.Ordered (fun op => (compare "n" op operand).eval d) .gt := by
  intro d operand
  have hfind : FieldPath.find? d "n" = some (.int64 9007199254740993) := by rfl
  have hfound : ∀ v, FieldPath.find? d "n" = some v → v.isDouble = false := by
    intro v hv
    cases hfind.symm.trans hv
    rfl
  have hstands : (Value.int64 9007199254740993).Stands operand .gt :=
    .integers (.wide _) (.wide _)
  have hoperand : operand.isDouble = false := rfl
  exact ⟨hoperand, hfound, (comparison_operators hoperand hfound).1 _ _ hfind hstands⟩

end Filter
end DocQuery
