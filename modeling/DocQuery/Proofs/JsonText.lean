import DocQuery.Json.Printer
import DocQuery.Json.Reader
import DocQuery.Proofs.Digits
import Mathlib.Tactic.SplitIfs

/-
  The text of a JSON value read back. Every string comes back character for character, an integer
  of a word comes back as itself, and the text of a value that nests too deep is refused, and no
  other: `readValue_print` says so of a value in front of any text that it ends at.
-/

namespace DocQuery.Json

/-! ## Strings -/

theorem hexQuad?_control {n : Nat} (h : n < 32) :
    hexQuad? '0' '0' (Encoding.hexDigit (n / 16)) (Encoding.hexDigit (n % 16)) = some n := by
  have hhigh : n / 16 < 16 := by omega
  have hlow : n % 16 < 16 := by omega
  have hzero : Encoding.hexValue? '0' = some 0 := by decide
  unfold hexQuad?
  rw [Encoding.hexValue?_hexDigit hhigh, Encoding.hexValue?_hexDigit hlow, hzero]
  simp only [Option.some.injEq]
  omega

theorem readString_plain {c : Char} (hquote : c ≠ '\x22') (hback : c ≠ '\\')
    (hcontrol : ¬c.toNat < 32) (t : List Char) :
    readString (c :: t) = (readString t).map fun (s, rest) => (c :: s, rest) := by
  rw [readString.eq_def]
  simp only [hquote, hback, hcontrol, if_false]

theorem readString_control {c : Char} (h : c.toNat < 32) (t : List Char) :
    readString ('\\' :: 'u' :: '0' :: '0' :: Encoding.hexDigit (c.toNat / 16) ::
      Encoding.hexDigit (c.toNat % 16) :: t) =
      (readString t).map fun (s, rest) => (c :: s, rest) := by
  have hlow : ¬(0xdc00 ≤ c.toNat ∧ c.toNat ≤ 0xdfff) := by omega
  have hhigh : ¬(0xd800 ≤ c.toNat ∧ c.toNat ≤ 0xdbff) := by omega
  rw [readString.eq_def]
  simp only [hexQuad?_control h]
  rw [if_neg (by decide), if_pos trivial, if_neg (by simpa using hlow),
    if_neg (by simpa using hhigh), Char.ofNat_toNat]

/-- A character comes back, in whatever way it is written. -/
theorem readString_escapeChar (c : Char) (t : List Char) :
    readString (escapeChar c ++ t) = (readString t).map fun (s, rest) => (c :: s, rest) := by
  unfold escapeChar
  split_ifs with hquote hback hb hf hn hr ht hcontrol
  · subst hquote; rfl
  · subst hback; rfl
  · subst hb; rfl
  · subst hf; rfl
  · subst hn; rfl
  · subst hr; rfl
  · subst ht; rfl
  · exact readString_control hcontrol t
  · exact readString_plain hquote hback hcontrol t

/-- A string comes back. -/
theorem readString_escaped (s rest : List Char) :
    readString (s.flatMap escapeChar ++ '\x22' :: rest) = some (s, rest) := by
  induction s with
  | nil =>
    rw [List.flatMap_nil, List.nil_append, readString.eq_def]
    rfl
  | cons c s ih =>
    rw [List.flatMap_cons, List.append_assoc, readString_escapeChar, ih]
    rfl

/-! ## Numbers at the front -/

/-- Reads a number. -/
def readNumber : List Char → Option (Json × List Char)
  | '-' :: rest => readMagnitude true rest
  | rest => readMagnitude false rest

/-- Whether a number begins with a character. -/
def startsNumber (c : Char) : Bool := c = '-' || c.isDigit

theorem readMagnitude_cons {c : Char} (h : c.isDigit = false) (negative : Bool) (t : List Char) :
    readMagnitude negative (c :: t) = none := by
  unfold readMagnitude digitsOf
  simp [h]

theorem startsNumber_of_readNumber {cs : List Char} {r : Json × List Char}
    (h : readNumber cs = some r) : ∃ c t, cs = c :: t ∧ startsNumber c = true := by
  unfold readNumber at h
  split at h
  · next rest => exact ⟨'-', rest, rfl, rfl⟩
  · next hne =>
    cases cs with
    | nil => cases h
    | cons c t =>
      refine ⟨c, t, rfl, ?_⟩
      cases hc : c.isDigit with
      | true => simp [startsNumber, hc]
      | false => rw [readMagnitude_cons hc] at h; cases h

theorem startsNumber_ne {c d : Char} (h : startsNumber c = true) (hd : startsNumber d = false) :
    c ≠ d := by
  intro he
  rw [he, hd] at h
  cases h

theorem isSpace_of_startsNumber {c : Char} (h : startsNumber c = true) : isSpace c = false := by
  have hspace := startsNumber_ne (d := ' ') h (by decide)
  have hline := startsNumber_ne (d := '\n') h (by decide)
  have htab := startsNumber_ne (d := '\t') h (by decide)
  have hreturn := startsNumber_ne (d := '\r') h (by decide)
  simp [isSpace, hspace, hline, htab, hreturn]

theorem skipSpace_cons {c : Char} (h : isSpace c = false) (t : List Char) :
    skipSpace (c :: t) = c :: t := by
  unfold skipSpace
  rw [List.dropWhile_cons, if_neg (by simp [h])]

/-- A value that begins like a number is read as one. -/
theorem readValue_number {c : Char} (h : startsNumber c = true) (fuel room : Nat) (t : List Char) :
    readValue (fuel + 1) room (c :: t) = readNumber (c :: t) := by
  rw [readValue, skipSpace_cons (isSpace_of_startsNumber h)]
  unfold readNumber
  split
  case h_7 rest he => rw [he]; rfl
  case h_8 hne =>
    split
    · next he => exact absurd he (hne _)
    · rfl
  all_goals next he => exact absurd (List.cons.inj he).1 (startsNumber_ne h (by decide))

theorem readNumber_of_isDigit {c : Char} (h : c.isDigit = true) (t : List Char) :
    readNumber (c :: t) = readMagnitude false (c :: t) := by
  unfold readNumber
  split
  · next he =>
    rw [(List.cons.inj he).1] at h
    exact absurd h (by decide)
  · rfl

/-- An integer of a word comes back. -/
theorem readNumber_printInt {n : Int} (hlow : -(wordLimit / 2 : Nat) ≤ n) (hhigh : n < wordLimit)
    {rest : List Char} (hrest : EndsNumber rest) :
    readNumber (printInt n ++ rest) = some (int n, rest) := by
  unfold printInt
  split
  · next hneg =>
    have hpos : 0 < n.natAbs := by omega
    have hle : n.natAbs ≤ wordLimit / 2 := by omega
    have hn : -(n.natAbs : Int) = n := by omega
    show readMagnitude true (Nat.toDigits 10 n.natAbs ++ rest) = _
    rw [readMagnitude_neg_toDigits hpos hle hrest, hn]
  · next hneg =>
    have hlt : n.natAbs < wordLimit := by omega
    have hn : (n.natAbs : Int) = n := by omega
    have hread := readMagnitude_toDigits hlt hrest
    cases hd : Nat.toDigits 10 n.natAbs with
    | nil => exact absurd hd Nat.toDigits_ne_nil
    | cons c t =>
      have hc : c.isDigit = true := isDigit_of_mem_toDigits (by rw [hd]; exact List.mem_cons_self)
      rw [hd] at hread
      rw [List.cons_append, readNumber_of_isDigit hc, ← List.cons_append, hread, hn]

/-! ## What reading gives -/

/-- The double that the text of a double is read as. -/
def rereadDouble (x : Double) : Double :=
  match readNumber (printDouble x) with
  | some (double y, _) => y
  | _ => x

mutual

/-- The value that the text of a value is read as: the same but for its doubles. -/
def reread : Json → Json
  | double x => double (rereadDouble x)
  | array items => array (rereadItems items)
  | object members => object (rereadMembers members)
  | j => j

def rereadItems : List Json → List Json
  | [] => []
  | j :: rest => reread j :: rereadItems rest

def rereadMembers : List (String × Json) → List (String × Json)
  | [] => []
  | (k, j) :: rest => (k, reread j) :: rereadMembers rest

end

mutual

/-- Whether the integers of a value fit a word and its doubles have texts that are read as
doubles. -/
def Fits : Json → Prop
  | int n => -(wordLimit / 2 : Nat) ≤ n ∧ n < wordLimit
  | double x => ∀ rest, EndsNumber rest →
      readNumber (printDouble x ++ rest) = some (double (rereadDouble x), rest)
  | array items => FitsItems items
  | object members => FitsMembers members
  | _ => True

def FitsItems : List Json → Prop
  | [] => True
  | j :: rest => Fits j ∧ FitsItems rest

def FitsMembers : List (String × Json) → Prop
  | [] => True
  | (_, j) :: rest => Fits j ∧ FitsMembers rest

end

/-! ## Values -/

/-- Whether a value can begin with a character, as printed. -/
def startsValue (c : Char) : Bool := !isSpace c && c ≠ ']' && c ≠ '\x7d'

theorem startsValue_of_startsNumber {c : Char} (h : startsNumber c = true) :
    startsValue c = true := by
  have hbracket := startsNumber_ne (d := ']') h (by decide)
  have hbrace := startsNumber_ne (d := '\x7d') h (by decide)
  simp [startsValue, isSpace_of_startsNumber h, hbracket, hbrace]

theorem print_head {j : Json} (h : Fits j) : ∃ c t, print j = c :: t ∧ startsValue c = true := by
  have hnumber : ∀ {cs : List Char} {r}, readNumber (cs ++ []) = some r →
      ∃ c t, cs = c :: t ∧ startsValue c = true := by
    intro cs r hr
    rw [List.append_nil] at hr
    obtain ⟨c, t, hcs, hc⟩ := startsNumber_of_readNumber hr
    exact ⟨c, t, hcs, startsValue_of_startsNumber hc⟩
  have hend : EndsNumber [] := by intro c hc; cases hc
  cases j with
  | null => exact ⟨'n', _, rfl, by decide⟩
  | bool b =>
    cases b with
    | true => exact ⟨'t', _, rfl, by decide⟩
    | false => exact ⟨'f', _, rfl, by decide⟩
  | int n => exact hnumber (readNumber_printInt h.1 h.2 hend)
  | double x => exact hnumber (h [] hend)
  | string s => exact ⟨'\x22', _, rfl, by decide⟩
  | array items => exact ⟨'[', _, rfl, by decide⟩
  | object members => exact ⟨'\x7b', _, rfl, by decide⟩

theorem endsNumber_cons {c : Char} (h : extendsNumber c = false) (t : List Char) :
    EndsNumber (c :: t) := by
  intro d hd
  cases hd
  exact h

theorem readValue_quote (fuel room : Nat) (t : List Char) :
    readValue (fuel + 1) room ('\x22' :: t) =
      (readString t).map fun (s, rest) => (string (String.ofList s), rest) := rfl

theorem readValue_bracket (fuel room : Nat) (t : List Char) :
    readValue (fuel + 1) (room + 1) ('[' :: t) =
      match skipSpace t with
      | ']' :: rest => some (array [], rest)
      | rest => (readItems fuel room rest).map fun (items, rest) => (array items, rest) := rfl

theorem readValue_brace (fuel room : Nat) (t : List Char) :
    readValue (fuel + 1) (room + 1) ('\x7b' :: t) =
      match skipSpace t with
      | '\x7d' :: rest => some (object [], rest)
      | rest => (readMembers fuel room rest).map fun (members, rest) => (object members, rest) :=
  rfl

theorem printString_append (s : String) (t : List Char) :
    printString s ++ t = '\x22' :: (s.toList.flatMap escapeChar ++ '\x22' :: t) := by
  simp [printString]

/-- A printed name in front of a colon. -/
theorem readMembers_printString (fuel room : Nat) (k : String) (t : List Char) :
    readMembers (fuel + 1) room (printString k ++ ':' :: t) =
      match readValue fuel room t with
      | none => none
      | some (j, rest) =>
        match skipSpace rest with
        | ',' :: rest => (readMembers fuel room rest).map fun (members, rest) =>
            ((k, j) :: members, rest)
        | '\x7d' :: rest => some ([(k, j)], rest)
        | _ => none := by
  obtain ⟨cs, rfl⟩ : ∃ cs, k = String.ofList cs := ⟨k.toList, String.ofList_toList.symm⟩
  rw [printString_append, String.toList_ofList, readMembers, skipSpace_cons (by decide)]
  split
  · next rest he =>
    rw [← (List.cons.inj he).2, readString_escaped]
    rfl
  · next hne => exact absurd rfl (hne _)

theorem ne_of_startsValue {c : Char} (hc : startsValue c = true) :
    isSpace c = false ∧ c ≠ ']' ∧ c ≠ '\x7d' := by
  simp only [startsValue, Bool.and_eq_true, Bool.not_eq_true', decide_eq_true_eq] at hc
  exact ⟨hc.1.1, hc.1.2, hc.2⟩

/-- Brackets around items that begin with a value. -/
theorem readValue_items (fuel room : Nat) {cs : List Char}
    (hcs : ∃ c t, cs = c :: t ∧ startsValue c = true) :
    readValue (fuel + 1) (room + 1) ('[' :: cs) =
      (readItems fuel room cs).map fun (items, rest) => (array items, rest) := by
  obtain ⟨c, t, rfl, hc⟩ := hcs
  obtain ⟨hspace, hbracket, -⟩ := ne_of_startsValue hc
  rw [readValue_bracket, skipSpace_cons hspace]
  split
  · next he => exact absurd (List.cons.inj he).1 hbracket
  · rfl

/-- Braces around members that begin with a name. -/
theorem readValue_members (fuel room : Nat) (t : List Char) :
    readValue (fuel + 1) (room + 1) ('\x7b' :: '\x22' :: t) =
      (readMembers fuel room ('\x22' :: t)).map fun (members, rest) => (object members, rest) := by
  rw [readValue_brace, skipSpace_cons (by decide)]
  rfl

theorem readValue_readNumber (fuel room : Nat) {cs : List Char} {r : Json × List Char}
    (h : readNumber cs = some r) : readValue (fuel + 1) room cs = some r := by
  obtain ⟨c, t, rfl, hc⟩ := startsNumber_of_readNumber h
  rw [readValue_number hc, h]

theorem printItems_cons (j : Json) {items : List Json} (h : items ≠ []) :
    printItems (j :: items) = print j ++ ',' :: printItems items := by
  cases items with
  | nil => exact absurd rfl h
  | cons => rfl

theorem printMembers_cons (k : String) (j : Json) {members : List (String × Json)}
    (h : members ≠ []) :
    printMembers ((k, j) :: members) =
      printString k ++ ':' :: print j ++ ',' :: printMembers members := by
  cases members with
  | nil => exact absurd rfl h
  | cons => rfl

theorem printItems_head {j : Json} (h : Fits j) (items : List Json) (rest : List Char) :
    ∃ c t, printItems (j :: items) ++ rest = c :: t ∧ startsValue c = true := by
  obtain ⟨c, t, ht, hc⟩ := print_head h
  cases items with
  | nil => exact ⟨c, t ++ rest, by rw [printItems, ht]; rfl, hc⟩
  | cons j' items => exact ⟨c, _, by rw [printItems_cons j (List.cons_ne_nil _ _), ht]; rfl, hc⟩

theorem printMembers_quote (k : String) (j : Json) (members : List (String × Json))
    (rest : List Char) : ∃ t, printMembers ((k, j) :: members) ++ rest = '\x22' :: t := by
  cases members with
  | nil => exact ⟨_, by rw [printMembers, List.append_assoc, printString_append]⟩
  | cons e members =>
    rw [printMembers_cons k j (List.cons_ne_nil _ _), List.append_assoc, List.append_assoc,
      printString_append]
    exact ⟨_, rfl⟩

/-- What is made of an outcome is refused when the outcome is. -/
theorem map_limited {α β : Type} {p q : Prop} [Decidable p] [Decidable q] (h : p ↔ q) (f : α → β)
    (y : α) : (if p then some y else none).map f = if q then some (f y) else none := by
  by_cases hp : p
  · rw [if_pos hp, if_pos (h.mp hp)]
    rfl
  · rw [if_neg hp, if_neg (fun hq => hp (h.mpr hq))]
    rfl

mutual

/-- The text of a value is read as the value, or refused if it nests too deep. -/
theorem readValue_print : (j : Json) → Fits j → ∀ (fuel room : Nat) (rest : List Char),
    2 * (print j).length < fuel → EndsNumber rest →
    readValue fuel room (print j ++ rest) =
      if depth j ≤ room then some (reread j, rest) else none
  | .null, _, fuel + 1, room, rest, _, _ => rfl
  | .bool true, _, fuel + 1, room, rest, _, _ => rfl
  | .bool false, _, fuel + 1, room, rest, _, _ => rfl
  | .int n, h, fuel + 1, room, rest, _, hrest => by
    have hdepth : depth (.int n) ≤ room := Nat.zero_le room
    rw [if_pos hdepth]
    exact readValue_readNumber fuel room (readNumber_printInt h.1 h.2 hrest)
  | .double x, h, fuel + 1, room, rest, _, hrest => by
    have hdepth : depth (.double x) ≤ room := Nat.zero_le room
    rw [if_pos hdepth]
    exact readValue_readNumber fuel room (h rest hrest)
  | .string s, _, fuel + 1, room, rest, _, _ => by
    have hdepth : depth (.string s) ≤ room := Nat.zero_le room
    show readValue (fuel + 1) room (printString s ++ rest) = _
    rw [if_pos hdepth, printString_append, readValue_quote, readString_escaped s.toList rest]
    simp [reread]
  | .array [], _, fuel + 1, 0, rest, _, _ => rfl
  | .array [], _, fuel + 1, room + 1, rest, _, _ => by
    have hdepth : depth (.array []) ≤ room + 1 := by simp [depth, depthItems]
    rw [if_pos hdepth]
    rfl
  | .array (j :: items), _, fuel + 1, 0, rest, _, _ => rfl
  | .array (j :: items), h, fuel + 1, room + 1, rest, hfuel, _ => by
    have htext : print (.array (j :: items)) ++ rest =
        '[' :: (printItems (j :: items) ++ ']' :: rest) := by
      simp [print]
    have hlength : 2 * (printItems (j :: items)).length + 1 < fuel := by
      simp only [print, List.length_cons, List.length_append, List.length_nil] at hfuel
      omega
    have hdepth : depth (.array (j :: items)) = depthItems (j :: items) + 1 := rfl
    rw [htext, readValue_items fuel room (printItems_head h.1 items _),
      readItems_print j items h fuel room rest hlength, hdepth]
    exact map_limited (by omega) _ _
  | .object [], _, fuel + 1, 0, rest, _, _ => rfl
  | .object [], _, fuel + 1, room + 1, rest, _, _ => by
    have hdepth : depth (.object []) ≤ room + 1 := by simp [depth, depthMembers]
    rw [if_pos hdepth]
    rfl
  | .object ((k, j) :: members), _, fuel + 1, 0, rest, _, _ => rfl
  | .object ((k, j) :: members), h, fuel + 1, room + 1, rest, hfuel, _ => by
    have htext : print (.object ((k, j) :: members)) ++ rest =
        '\x7b' :: (printMembers ((k, j) :: members) ++ '\x7d' :: rest) := by
      simp [print]
    have hlength : 2 * (printMembers ((k, j) :: members)).length + 1 < fuel := by
      simp only [print, List.length_cons, List.length_append, List.length_nil] at hfuel
      omega
    have hdepth : depth (.object ((k, j) :: members)) = depthMembers ((k, j) :: members) + 1 := rfl
    obtain ⟨t, ht⟩ := printMembers_quote k j members ('\x7d' :: rest)
    rw [htext, ht, readValue_members fuel room t, ← ht,
      readMembers_print k j members h fuel room rest hlength, hdepth]
    exact map_limited (by omega) _ _

theorem readItems_print : (j : Json) → (items : List Json) → FitsItems (j :: items) →
    ∀ (fuel room : Nat) (rest : List Char), 2 * (printItems (j :: items)).length + 1 < fuel →
    readItems fuel room (printItems (j :: items) ++ ']' :: rest) =
      if depthItems (j :: items) ≤ room then some (rereadItems (j :: items), rest) else none
  | j, [], h, fuel + 1, room, rest, hfuel => by
    have hlength : 2 * (print j).length < fuel := by
      rw [printItems] at hfuel
      omega
    have hdepth : depthItems [j] = depth j := by simp [depthItems]
    have hread := readValue_print j h.1 fuel room (']' :: rest) hlength
      (endsNumber_cons (by decide) rest)
    show (match readValue fuel room (print j ++ ']' :: rest) with
      | none => none | some (j, rest) => _) = _
    rw [hread, hdepth]
    by_cases hd : depth j ≤ room
    · rw [if_pos hd, if_pos hd]
      rfl
    · rw [if_neg hd, if_neg hd]
  | j, j' :: items, h, fuel + 1, room, rest, hfuel => by
    have htext : printItems (j :: j' :: items) ++ ']' :: rest =
        print j ++ ',' :: (printItems (j' :: items) ++ ']' :: rest) := by
      rw [printItems_cons j (List.cons_ne_nil _ _)]
      simp
    have hsum : (printItems (j :: j' :: items)).length =
        (print j).length + (printItems (j' :: items)).length + 1 := by
      rw [printItems_cons j (List.cons_ne_nil _ _), List.length_append, List.length_cons]
      omega
    obtain ⟨c, t, hprint, -⟩ := print_head h.1
    have hpos : 0 < (print j).length := by rw [hprint]; simp
    have hread := readValue_print j h.1 fuel room (',' :: (printItems (j' :: items) ++ ']' :: rest))
      (by omega) (endsNumber_cons (by decide) _)
    have hitems := readItems_print j' items h.2 fuel room rest (by omega)
    have hdepth : depthItems (j :: j' :: items) = max (depth j) (depthItems (j' :: items)) := rfl
    rw [htext, hdepth]
    show (match readValue fuel room (print j ++ ',' :: _) with
      | none => none | some (j, rest) => _) = _
    rw [hread]
    by_cases hd : depth j ≤ room
    · rw [if_pos hd]
      show (readItems fuel room (printItems (j' :: items) ++ ']' :: rest)).map _ = _
      rw [hitems]
      exact map_limited (by omega) _ _
    · rw [if_neg hd, if_neg (by omega)]

theorem readMembers_print : (k : String) → (j : Json) → (members : List (String × Json)) →
    FitsMembers ((k, j) :: members) → ∀ (fuel room : Nat) (rest : List Char),
    2 * (printMembers ((k, j) :: members)).length + 1 < fuel →
    readMembers fuel room (printMembers ((k, j) :: members) ++ '\x7d' :: rest) =
      if depthMembers ((k, j) :: members) ≤ room then
        some (rereadMembers ((k, j) :: members), rest)
      else none
  | k, j, [], h, fuel + 1, room, rest, hfuel => by
    have htext : printMembers [(k, j)] ++ '\x7d' :: rest =
        printString k ++ ':' :: (print j ++ '\x7d' :: rest) := by
      simp [printMembers]
    have hlength : 2 * (print j).length < fuel := by
      rw [printMembers, List.length_append, List.length_cons] at hfuel
      omega
    have hdepth : depthMembers [(k, j)] = depth j := by simp [depthMembers]
    have hread := readValue_print j h.1 fuel room ('\x7d' :: rest) hlength
      (endsNumber_cons (by decide) rest)
    rw [htext, readMembers_printString, hread, hdepth]
    by_cases hd : depth j ≤ room
    · rw [if_pos hd, if_pos hd]
      rfl
    · rw [if_neg hd, if_neg hd]
  | k, j, (k', j') :: members, h, fuel + 1, room, rest, hfuel => by
    have htext : printMembers ((k, j) :: (k', j') :: members) ++ '\x7d' :: rest =
        printString k ++ ':' ::
          (print j ++ ',' :: (printMembers ((k', j') :: members) ++ '\x7d' :: rest)) := by
      rw [printMembers_cons k j (List.cons_ne_nil _ _)]
      simp
    have hsum : (printMembers ((k, j) :: (k', j') :: members)).length =
        (printString k).length + (print j).length +
          (printMembers ((k', j') :: members)).length + 2 := by
      rw [printMembers_cons k j (List.cons_ne_nil _ _)]
      simp only [List.length_append, List.length_cons]
      omega
    have hread := readValue_print j h.1 fuel room
      (',' :: (printMembers ((k', j') :: members) ++ '\x7d' :: rest)) (by omega)
      (endsNumber_cons (by decide) _)
    have hmembers := readMembers_print k' j' members h.2 fuel room rest (by omega)
    have hdepth : depthMembers ((k, j) :: (k', j') :: members) =
        max (depth j) (depthMembers ((k', j') :: members)) := rfl
    rw [htext, readMembers_printString, hread, hdepth]
    by_cases hd : depth j ≤ room
    · rw [if_pos hd]
      show (readMembers fuel room (printMembers ((k', j') :: members) ++ '\x7d' :: rest)).map _ = _
      rw [hmembers]
      exact map_limited (by omega) _ _
    · rw [if_neg hd, if_neg (by omega)]

end

/-- A text of its own is read as the value it was printed from, unless that nests too deep. -/
theorem ofText?_text {j : Json} (h : Fits j) :
    ofText? j.text = if depth j ≤ maxDepth then some (reread j) else none := by
  have hread := readValue_print j h (2 * (print j).length + 1) maxDepth [] (by omega)
    (by intro c hc; cases hc)
  rw [List.append_nil] at hread
  unfold ofText? text ofChars?
  rw [String.toList_ofList, hread]
  by_cases hd : depth j ≤ maxDepth
  · rw [if_pos hd, if_pos hd]
    rfl
  · rw [if_neg hd, if_neg hd]

end DocQuery.Json
