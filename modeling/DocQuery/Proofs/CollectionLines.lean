import DocQuery.Proofs.ValueText
import DocQuery.Store.CollectionFile

/-
  The lines of a collection file. Whatever a document holds, its text is one line without blanks at
  its ends, so the lines of a file are the documents written to it; the file is read up to the first
  line that is refused.
-/

namespace DocQuery

/-! ## Splitting and trimming -/

namespace Text

theorem split_of_not_mem {sep : Char} {line : List Char} (h : sep ∉ line) :
    split sep line = [line] := by
  induction line with
  | nil => rfl
  | cons c line ih =>
    simp only [List.mem_cons, not_or] at h
    rw [split, if_neg (Ne.symm h.1), ih h.2]

/-- The pieces on both sides of a separator. -/
theorem split_append_sep (sep : Char) (front rest : List Char) :
    split sep (front ++ sep :: rest) = split sep front ++ split sep rest := by
  induction front with
  | nil => simp [split]
  | cons c front ih =>
    by_cases hc : c = sep
    · simp [split, hc, ih]
    · rcases hpieces : split sep front with _ | ⟨piece, pieces⟩
      · exact absurd hpieces (split_ne_nil sep front)
      · simp [split, hc, ih, hpieces]

theorem split_append {sep : Char} {line : List Char} (h : sep ∉ line) (rest : List Char) :
    split sep (line ++ sep :: rest) = line :: split sep rest := by
  rw [split_append_sep, split_of_not_mem h, List.singleton_append]

/-- No piece has the separator in it. -/
theorem not_mem_of_mem_split {sep : Char} {cs piece : List Char} (h : piece ∈ split sep cs) :
    sep ∉ piece := by
  induction cs generalizing piece with
  | nil =>
    rw [split, List.mem_singleton] at h
    rw [h]
    exact List.not_mem_nil
  | cons c cs ih =>
    rw [split] at h
    split at h
    · rcases List.mem_cons.mp h with rfl | h
      · exact List.not_mem_nil
      · exact ih h
    · next hc =>
      rcases hpieces : split sep cs with _ | ⟨first, pieces⟩
      · exact absurd hpieces (split_ne_nil sep cs)
      · rw [hpieces] at h ih
        rcases List.mem_cons.mp h with rfl | h
        · have hfirst := ih List.mem_cons_self
          simp [Ne.symm hc, hfirst]
        · exact ih (List.mem_cons_of_mem _ h)

theorem trimBlank_eq_self {first last : Char} (hfirst : isBlank first = false)
    (hlast : isBlank last = false) (middle : List Char) :
    trimBlank (first :: middle ++ [last]) = first :: middle ++ [last] := by
  unfold trimBlank
  rw [List.cons_append, List.dropWhile_cons, if_neg (by simp [hfirst]), ← List.cons_append,
    List.reverse_append, List.reverse_singleton, List.singleton_append, List.dropWhile_cons,
    if_neg (by simp [hlast]), List.reverse_cons, List.reverse_reverse]

end Text

namespace Json

/-! ## A printed value is one line -/

theorem newline_not_mem_escapeChar (c : Char) : '\n' ∉ escapeChar c := by
  have hhex : ∀ n, n < 16 → Encoding.hexDigit n ≠ '\n' := by decide
  unfold escapeChar
  split_ifs with hquote hback hb hf hn hr ht hcontrol
  · decide
  · decide
  · decide
  · decide
  · decide
  · decide
  · decide
  · have hhigh := hhex (c.toNat / 16) (by omega)
    have hlow := hhex (c.toNat % 16) (by omega)
    simp [Ne.symm hhigh, Ne.symm hlow]
  · simp [Ne.symm hn]

theorem newline_not_mem_printString (s : String) : '\n' ∉ printString s := by
  unfold printString
  simp only [List.cons_append, List.mem_cons, List.mem_append, List.mem_flatMap, List.not_mem_nil,
    or_false, not_or, not_exists, not_and]
  exact ⟨by decide, fun c _ => newline_not_mem_escapeChar c, by decide⟩

theorem newline_not_mem_toDigits (n : Nat) : '\n' ∉ Nat.toDigits 10 n := by
  intro h
  exact absurd (isDigit_of_mem_toDigits h) (by decide)

theorem newline_not_mem_printInt (n : Int) : '\n' ∉ printInt n := by
  unfold printInt
  split
  · simp [newline_not_mem_toDigits]
  · exact newline_not_mem_toDigits _

theorem newline_not_mem_positionalText (d : Decimal) (wholeMark : Bool) :
    '\n' ∉ d.positionalText wholeMark := by
  have hds : '\n' ∉ d.chars := newline_not_mem_toDigits d.digits
  unfold Decimal.positionalText
  dsimp only
  split_ifs with hwhole hmark hpoint
  · simp [hds]
  · simp [hds]
  · have htake : '\n' ∉ d.chars.take (d.lead.toNat + 1) := by
      intro h
      exact hds (List.mem_of_mem_take h)
    have hdrop : '\n' ∉ d.chars.drop (d.lead.toNat + 1) := by
      intro h
      exact hds (List.mem_of_mem_drop h)
    simp [htake, hdrop]
  · simp [hds]

theorem newline_not_mem_exponentText (d : Decimal) (plus : Bool) :
    '\n' ∉ d.exponentText plus := by
  have hds : '\n' ∉ d.chars := newline_not_mem_toDigits d.digits
  have hexp := newline_not_mem_toDigits d.lead.natAbs
  unfold Decimal.exponentText
  dsimp only
  rw [List.mem_append, not_or]
  constructor
  · split
    · simp
    · next he => rw [he] at hds; exact hds
    · next he => rw [he] at hds; simpa using hds
  · split_ifs
    · simp [hexp]
    · simp [hexp]
    · simp [hexp]

theorem newline_not_mem_printDouble (x : Double) : '\n' ∉ printDouble x := by
  by_cases hx : x.isFinite = true
  · have hbody : '\n' ∉ magnitudeText x := by
      unfold magnitudeText
      dsimp only
      split
      · exact newline_not_mem_positionalText _ _
      · exact newline_not_mem_exponentText _ _
    rw [printDouble_eq hx]
    split
    · simp [hbody]
    · exact hbody
  · unfold printDouble
    rw [if_neg hx]
    decide

mutual

theorem newline_not_mem_print : (j : Json) → '\n' ∉ print j
  | .null => by decide
  | .bool true => by decide
  | .bool false => by decide
  | .int n => newline_not_mem_printInt n
  | .double x => newline_not_mem_printDouble x
  | .string s => newline_not_mem_printString s
  | .array items => by
    simp [print, newline_not_mem_printItems items]
  | .object members => by
    simp [print, newline_not_mem_printMembers members]

theorem newline_not_mem_printItems : (items : List Json) → '\n' ∉ printItems items
  | [] => by simp [printItems]
  | [j] => newline_not_mem_print j
  | j :: j' :: items => by
    rw [printItems_cons j (List.cons_ne_nil _ _)]
    simp [newline_not_mem_print j, newline_not_mem_printItems (j' :: items)]

theorem newline_not_mem_printMembers : (members : List (String × Json)) →
    '\n' ∉ printMembers members
  | [] => by simp [printMembers]
  | [(k, j)] => by
    simp [printMembers, newline_not_mem_printString k, newline_not_mem_print j]
  | (k, j) :: e :: members => by
    rw [printMembers_cons k j (List.cons_ne_nil _ _)]
    simp [newline_not_mem_printString k, newline_not_mem_print j,
      newline_not_mem_printMembers (e :: members)]

end

end Json

namespace CollectionFile

/-! ## Lines and documents -/

/-- The line of a document. -/
def lineOf (d : Document) : List Char := (Value.documentText d).toList

theorem lineOf_eq (d : Document) :
    lineOf d = '\x7b' :: Json.printMembers (Value.fieldsToJson d) ++ ['\x7d'] := by
  unfold lineOf Value.documentText Value.jsonText Json.text
  rw [String.toList_ofList]
  rfl

theorem trimBlank_lineOf (d : Document) : Text.trimBlank (lineOf d) = lineOf d := by
  rw [lineOf_eq]
  exact Text.trimBlank_eq_self (by decide) (by decide) _

theorem newline_not_mem_lineOf (d : Document) : '\n' ∉ lineOf d := by
  unfold lineOf Value.documentText Value.jsonText Json.text
  rw [String.toList_ofList]
  exact Json.newline_not_mem_print _

theorem toList_textOf (d : Document) (docs : List Document) :
    (textOf (d :: docs)).toList = lineOf d ++ '\n' :: (textOf docs).toList := by
  unfold textOf lineOf
  rw [List.map_cons, String.join_cons, String.toList_append, String.toList_append]
  simp

/-- What the line of a document is read as. -/
def rereadDocument (d : Document) : Option Document := Value.documentOfText? (Value.documentText d)

/-- A file is read document by document. -/
theorem readLines_textOf_cons (file : String) (d : Document) (docs : List Document) (n : Nat) :
    readLines file n (Text.split '\n' (textOf (d :: docs)).toList) =
      match rereadDocument d with
      | none => .error (.unreadableLine file n)
      | some d' => (readLines file (n + 1) (Text.split '\n' (textOf docs).toList)).map (d' :: ·) := by
  have htext : String.ofList (lineOf d) = Value.documentText d := String.ofList_toList
  rw [toList_textOf, Text.split_append (newline_not_mem_lineOf d), readLines]
  rw [trimBlank_lineOf, if_neg (by rw [lineOf_eq]; simp), htext]
  rfl

/-- A file gives documents when each of its lines gives one. -/
theorem toOption_readLines_textOf (file : String) (docs : List Document) (n : Nat) :
    (readLines file n (Text.split '\n' (textOf docs).toList)).toOption =
      docs.mapM rereadDocument := by
  induction docs generalizing n with
  | nil => rfl
  | cons d docs ih =>
    rw [readLines_textOf_cons, List.mapM_cons]
    cases hd : rereadDocument d with
    | none => rfl
    | some d' =>
      rw [← ih (n + 1)]
      cases readLines file (n + 1) (Text.split '\n' (textOf docs).toList) with
      | error e => rfl
      | ok docs' => rfl

/-- A file is read as what its lines are read as. -/
theorem documentsOf_textOf_map {file : String} {docs : List Document} {f : Document → Document}
    (h : ∀ d ∈ docs, rereadDocument d = some (f d)) :
    documentsOf file (textOf docs) = .ok (docs.map f) := by
  have hall : docs.mapM rereadDocument = some (docs.map f) := by
    induction docs with
    | nil => rfl
    | cons d docs ih =>
      have hrest : docs.mapM rereadDocument = some (docs.map f) := by
        refine ih ?_
        intro x hx
        exact h x (List.mem_cons_of_mem _ hx)
      rw [List.mapM_cons, h d List.mem_cons_self, hrest]
      rfl
  have hread := toOption_readLines_textOf file docs 1
  rw [hall] at hread
  unfold documentsOf
  cases hr : readLines file 1 (Text.split '\n' (textOf docs).toList) with
  | error e => rw [hr] at hread; cases hread
  | ok docs' => rw [hr] at hread; rw [Option.some.inj hread]

/-- A file whose documents all come back is read as it was written. -/
theorem documentsOf_textOf_eq_ok {file : String} {docs : List Document}
    (h : ∀ d ∈ docs, rereadDocument d = some d) : documentsOf file (textOf docs) = .ok docs := by
  have hread := @documentsOf_textOf_map file docs id h
  rw [List.map_id] at hread
  exact hread

/-- A file can be read when each of its lines can. -/
theorem exists_documentsOf_textOf (file : String) (docs : List Document) :
    (∃ docs', documentsOf file (textOf docs) = .ok docs') ↔
      ∀ d ∈ docs, (rereadDocument d).isSome = true := by
  have hmap : (∃ docs', docs.mapM rereadDocument = some docs') ↔
      ∀ d ∈ docs, (rereadDocument d).isSome = true := by
    induction docs with
    | nil => simp
    | cons d docs ih =>
      rw [List.mapM_cons, List.forall_mem_cons, ← ih]
      cases rereadDocument d with
      | none => simp
      | some d' => cases docs.mapM rereadDocument <;> simp
  rw [← hmap, ← toOption_readLines_textOf file docs 1]
  unfold documentsOf
  cases readLines file 1 (Text.split '\n' (textOf docs).toList) with
  | error e => simp [Except.toOption]
  | ok docs' => simp [Except.toOption]

end CollectionFile
end DocQuery
