import DocQuery.Proofs.Clauses
import DocQuery.Proofs.ParserDepth

/-
  The two ways in which a filter document is made of others. Membership in a set of values is
  written out, as a disjunction of equalities or a list of inequalities, and so has no bound on its
  size; `membership_and_negation` says that the parsed fragments still mean what the operators on a
  set mean. Filters that are joined become the members of one `$and`, one level deeper than they
  stood alone; `joined_conjunction` says when that is accepted, and that it is their conjunction.

  The first of the joined filters is the one exception: if it is itself nothing but an `$and`, its
  members are taken in as they are and stand no deeper than before.
-/

namespace DocQuery

/-! ## Membership -/

namespace Clause

/-- One of several values: what the operator on the set means. -/
theorem holds_among (d : Document) (field : String) (values : List Value) :
    (among field values false).holds d = (Filter.among field values).eval d := by
  rw [holds, Filter.eval]
  cases FieldPath.find? d field <;> rfl

/-- None of several values; a field that is not there has none of them. -/
theorem holds_notAmong (d : Document) (field : String) (values : List Value) :
    (among field values true).holds d = (Filter.notAmong field values).eval d := by
  rw [holds, Filter.eval]
  cases FieldPath.find? d field with
  | none => rfl
  | some v => exact List.not_any_eq_all_not.symm

end Clause

namespace Filter

/-- Membership fragments. The negated one is accepted with any values, and means that none of them
is there. The other is accepted, and is its complement, unless one of the values is written like
operators. -/
theorem membership_and_negation {field : String} (hfield : isOperatorKey field = false)
    (values : List Value) :
    ∃ outside, parse (Fragment.membership field values true) = .ok outside ∧
      (∀ d, outside.eval d = (notAmong field values).eval d) ∧
      ((∀ v ∈ values, v.readsAsOperators = false) →
        ∃ inside, parse (Fragment.membership field values false) = .ok inside ∧
          (∀ d, inside.eval d = (among field values).eval d) ∧
          ∀ d, inside.eval d = !outside.eval d) := by
  obtain ⟨outside, houtside, hnot⟩ := parseAt_nonmembership (Nat.zero_le _) hfield values
  have hnone : ∀ d, outside.eval d = (notAmong field values).eval d := fun d =>
    (hnot d).trans (Clause.holds_notAmong d field values)
  refine ⟨outside, houtside, hnone, ?_⟩
  intro hplain
  have hroom : 0 + 1 ≤ maxNesting := by decide
  obtain ⟨inside, hinside, hsome⟩ := parseAt_membership hroom hfield values hplain
  have hone : ∀ d, inside.eval d = (among field values).eval d := fun d =>
    (hsome d).trans (Clause.holds_among d field values)
  refine ⟨inside, hinside, hone, fun d => ?_⟩
  rw [hone, hnone, eval, eval, Bool.not_not]

/-- Sevens, more of them than the operators on a set take. -/
def sevens : List Value := List.replicate 1001 (.int32 7)

theorem membership_and_negation_sevens :
    isOperatorKey "stock" = false ∧ (∀ v ∈ sevens, v.readsAsOperators = false) ∧
    ∃ outside inside, parse (Fragment.membership "stock" sevens true) = .ok outside ∧
      parse (Fragment.membership "stock" sevens false) = .ok inside ∧
      ∀ d, inside.eval d = !outside.eval d := by
  have hfield : isOperatorKey "stock" = false := by decide
  have hplain : ∀ v ∈ sevens, v.readsAsOperators = false := by
    intro v hv
    rw [List.eq_of_mem_replicate hv]
    rfl
  obtain ⟨outside, houtside, -, hrest⟩ := membership_and_negation hfield sevens
  obtain ⟨inside, hinside, -, hcomplement⟩ := hrest hplain
  exact ⟨hfield, hplain, outside, inside, houtside, hinside, hcomplement⟩

end Filter

/-! ## Conjunction -/

namespace Fragment

/-- Whether a filter document is nothing but a conjunction. -/
def IsConjunction (q : Document) : Prop := ∃ items, q = [("$and", .array items)]

/-- What a filter brings into a conjunction when it is the first: the members of its own, or
itself. -/
def conjuncts : Document → List Value
  | [("$and", .array items)] => items
  | q => [.document q]

theorem conjuncts_of_not {q : Document} (h : ¬ IsConjunction q) : conjuncts q = [.document q] := by
  unfold conjuncts
  split
  · next items => exact absurd ⟨items, rfl⟩ h
  · rfl

/-- Two or more filters make one `$and`. -/
theorem joined_eq (first second : Document) (rest : List Document) :
    joined (first :: second :: rest) =
      some [("$and", .array (conjuncts first ++ (second :: rest).map .document))] := by
  by_cases h : IsConjunction first
  · obtain ⟨items, rfl⟩ := h
    exact foldl_conjoin items (second :: rest)
  · rw [conjuncts_of_not h]
    exact joined_cons_cons (fun items he => h ⟨items, he⟩) second rest

end Fragment

namespace Filter

/-- Whether a filter document is accepted so many levels deep. -/
def Accepts (depth : Nat) (q : Document) : Prop := ∃ f, parseAt depth q = .ok f

theorem Accepts.persists {depth depth' : Nat} {q : Document} (h : Accepts depth' q)
    (hle : depth ≤ depth') : Accepts depth q := by
  obtain ⟨f, hf⟩ := h
  exact ⟨f, parseAt_persists hle q f hf⟩

/-- What a member of a connective becomes: it has to be a filter document, one level deeper. -/
def Becomes (depth : Nat) (item : Value) (f : Filter) : Prop :=
  ∃ q, item = .document q ∧ parseAt (depth + 1) q = .ok f

theorem becomes_document {depth : Nat} {q : Document} {f : Filter} :
    Becomes depth (.document q) f ↔ parseAt (depth + 1) q = .ok f := by
  constructor
  · rintro ⟨q', he, hf⟩
    cases he
    exact hf
  · exact fun hf => ⟨q, rfl, hf⟩

/-- The members of a connective are parsed one by one, and all have to be accepted. -/
theorem members_eq_ok {depth : Nat} (key : String) {items : List Value} {fs : List Filter} :
    members depth key items = .ok fs ↔ List.Forall₂ (Becomes depth) items fs := by
  induction items generalizing fs with
  | nil =>
    rw [members, List.forall₂_nil_left_iff]
    exact ⟨fun h => by cases h; rfl, fun h => by rw [h]⟩
  | cons item items ih =>
    rw [List.forall₂_cons_left_iff]
    cases item with
    | document q =>
      rw [members_cons]
      simp only [becomes_document, ← ih]
      rcases parseAt (depth + 1) q with e | f
      · exact ⟨nofun, fun ⟨_, _, h, _⟩ => nomatch h⟩
      · rcases members depth key items with e | gs
        · exact ⟨nofun, fun ⟨_, _, _, h, _⟩ => nomatch h⟩
        · constructor
          · intro h
            cases h
            exact ⟨f, gs, rfl, rfl, rfl⟩
          · rintro ⟨_, _, hf, hgs, rfl⟩
            cases hf
            cases hgs
            rfl
    | _ => exact ⟨nofun, fun ⟨_, _, ⟨_, h, _⟩, _⟩ => nomatch h⟩

theorem parseAt_conjunction {depth : Nat} (h : depth ≤ maxNesting) {items : List Value}
    {f : Filter} :
    parseAt depth [("$and", .array items)] = .ok f ↔
      ∃ fs, List.Forall₂ (Becomes depth) items fs ∧ f = and fs := by
  simp only [← members_eq_ok "$and"]
  constructor
  · intro hf
    rw [parseAt_eq h, clauses, clause] at hf
    rcases hfs : members depth "$and" items with e | fs
    · simp only [connective?, hfs] at hf
      cases hf
    · simp only [connective?, hfs, clauses] at hf
      cases hf
      exact ⟨fs, rfl, rfl⟩
  · rintro ⟨fs, hfs, rfl⟩
    exact parseAt_connective depth h rfl hfs

/-- Parts that stand in relation to something, one by one. -/
theorem exists_forall₂_iff {α β : Type} {r : α → β → Prop} {as : List α} :
    (∃ bs, List.Forall₂ r as bs) ↔ ∀ a ∈ as, ∃ b, r a b := by
  induction as with
  | nil => simp
  | cons a as ih =>
    rw [List.forall_mem_cons, ← ih]
    constructor
    · rintro ⟨_, h⟩
      cases h with
      | cons ha has => exact ⟨⟨_, ha⟩, _, has⟩
    · rintro ⟨⟨b, hb⟩, bs, hbs⟩
      exact ⟨b :: bs, .cons hb hbs⟩

theorem forall₂_append_left {α β : Type} {r : α → β → Prop} {as as' : List α} {bs : List β}
    (h : List.Forall₂ r (as ++ as') bs) :
    ∃ cs cs', List.Forall₂ r as cs ∧ List.Forall₂ r as' cs' ∧ bs = cs ++ cs' := by
  induction as generalizing bs with
  | nil => exact ⟨[], bs, .nil, h, rfl⟩
  | cons a as ih =>
    cases h with
    | cons ha has =>
      obtain ⟨cs, cs', hcs, hcs', rfl⟩ := ih has
      exact ⟨_ :: cs, cs', .cons ha hcs, hcs', rfl⟩

theorem accepts_conjunction {depth : Nat} (h : depth ≤ maxNesting) {items : List Value} :
    Accepts depth [("$and", .array items)] ↔ ∀ item ∈ items, ∃ f, Becomes depth item f := by
  rw [← exists_forall₂_iff]
  unfold Accepts
  simp only [parseAt_conjunction h]
  constructor
  · rintro ⟨_, fs, hfs, _⟩
    exact ⟨fs, hfs⟩
  · rintro ⟨fs, hfs⟩
    exact ⟨and fs, fs, hfs, rfl⟩

open Fragment (IsConjunction conjuncts joined)

/-- The first of several filters stands one level deeper, unless its members are taken in. -/
theorem conjuncts_accepted (first : Document) :
    (∀ item ∈ conjuncts first, ∃ f, Becomes 0 item f) ↔
      Accepts 1 first ∨ IsConjunction first ∧ Accepts 0 first := by
  by_cases h : IsConjunction first
  · -- its members stand as deep in the joined filter as in the filter itself
    have hmembers : (∀ item ∈ conjuncts first, ∃ f, Becomes 0 item f) ↔ Accepts 0 first := by
      obtain ⟨items, rfl⟩ := h
      exact (accepts_conjunction (Nat.zero_le _)).symm
    rw [hmembers]
    constructor
    · exact fun h0 => .inr ⟨h, h0⟩
    · rintro (h1 | ⟨-, h0⟩)
      · exact h1.persists (Nat.zero_le 1)
      · exact h0
  · rw [Fragment.conjuncts_of_not h, List.forall_mem_singleton]
    simp only [becomes_document, h, false_and, or_false]
    rfl

/-- What the first of several filters brings in, means the same as the filter itself. -/
theorem parse_first {first : Document} {gs : List Filter}
    (h : List.Forall₂ (Becomes 0) (conjuncts first) gs) :
    ∃ g, parse first = .ok g ∧ ∀ d, g.eval d = gs.all fun g => g.eval d := by
  by_cases hand : IsConjunction first
  · obtain ⟨items, rfl⟩ := hand
    refine ⟨and gs, (parseAt_conjunction (Nat.zero_le _)).mpr ⟨gs, h, rfl⟩, fun d => ?_⟩
    rw [eval, evalAll_eq]
  · rw [Fragment.conjuncts_of_not hand, List.forall₂_cons_left_iff] at h
    obtain ⟨g, _, hg, hnil, rfl⟩ := h
    cases hnil
    refine ⟨g, parseAt_persists (Nat.zero_le 1) first g (becomes_document.mp hg), fun d => ?_⟩
    simp

/-- Joining filters is conjunction. From two filters on, the joined filter is accepted just if each
of them is accepted one level deeper; of the first, if it is itself nothing but a conjunction, it is
enough that it is accepted where it stands. Then each is accepted alone, and a document matches the
joined filter just if it matches all of them. -/
theorem joined_conjunction (first second : Document) (rest : List Document) :
    ∃ whole, joined (first :: second :: rest) = some whole ∧
      (Accepts 0 whole ↔ (Accepts 1 first ∨ IsConjunction first ∧ Accepts 0 first) ∧
        ∀ q ∈ second :: rest, Accepts 1 q) ∧
      ∀ f, parse whole = .ok f →
        ∃ fs, List.Forall₂ (fun q g => parse q = .ok g) (first :: second :: rest) fs ∧
          ∀ d, f.eval d = fs.all fun g => g.eval d := by
  refine ⟨_, Fragment.joined_eq first second rest, ?_, ?_⟩
  · rw [accepts_conjunction (Nat.zero_le _), List.forall_mem_append, conjuncts_accepted,
      List.forall_mem_map]
    simp only [becomes_document]
    rfl
  · intro f hf
    obtain ⟨fs, hfs, rfl⟩ := (parseAt_conjunction (Nat.zero_le _)).mp hf
    obtain ⟨gs, hs, hgs, hhs, rfl⟩ := forall₂_append_left hfs
    obtain ⟨g, hg, hfirst⟩ := parse_first hgs
    have hothers : List.Forall₂ (fun q h => parse q = .ok h) (second :: rest) hs := by
      rw [List.forall₂_map_left_iff] at hhs
      exact hhs.imp fun q h hq =>
        parseAt_persists (Nat.zero_le 1) q h (becomes_document.mp hq)
    refine ⟨g :: hs, .cons hg hothers, fun d => ?_⟩
    rw [eval, evalAll_eq, List.all_append, List.all_cons, hfirst]

end Filter
end DocQuery
