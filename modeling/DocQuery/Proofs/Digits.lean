import DocQuery.Json.Number

/-
  Decimal digits, written and read. The digits of a natural number are read back as that number,
  whatever follows them, as long as it is not another digit; a reader that collects only what fits a
  word takes all of them when the number fits.
-/

namespace DocQuery.Json

/-! ## Digits in front of something else -/

/-- Whether a character can go on with a number. -/
def extendsNumber (c : Char) : Bool := c.isDigit || c = '.' || c = 'e' || c = 'E'

/-- A text that a number in front of it ends at. -/
def EndsNumber (rest : List Char) : Prop := ∀ c ∈ rest.head?, extendsNumber c = false

theorem EndsNumber.isDigit {rest : List Char} (h : EndsNumber rest) :
    ∀ c ∈ rest.head?, c.isDigit = false := by
  intro c hc
  have hext := h c hc
  unfold extendsNumber at hext
  simp only [Bool.or_eq_false_iff] at hext
  exact hext.1.1.1

theorem digitsOf_append {ds rest : List Char} (hds : ∀ c ∈ ds, c.isDigit = true)
    (hrest : ∀ c ∈ rest.head?, c.isDigit = false) : digitsOf (ds ++ rest) = ds := by
  unfold digitsOf
  rw [List.takeWhile_append_of_pos hds]
  cases rest with
  | nil => simp
  | cons c rest =>
    have hc : c.isDigit = false := hrest c rfl
    simp [hc]

theorem dropDigits_append {ds rest : List Char} (hds : ∀ c ∈ ds, c.isDigit = true)
    (hrest : ∀ c ∈ rest.head?, c.isDigit = false) : dropDigits (ds ++ rest) = rest := by
  unfold dropDigits
  rw [List.dropWhile_append_of_pos hds]
  cases rest with
  | nil => rfl
  | cons c rest =>
    have hc : c.isDigit = false := hrest c rfl
    simp [hc]

/-! ## The digits of a number -/

theorem isDigit_of_mem_toDigits {n : Nat} {c : Char} (h : c ∈ Nat.toDigits 10 n) :
    c.isDigit = true :=
  Nat.isDigit_of_mem_toDigits (by decide) (by decide) h

theorem decimalValue_eq (cs : List Char) : decimalValue cs = Nat.ofDigitChars 10 cs 0 := by
  unfold decimalValue Nat.ofDigitChars
  congr 1
  funext n c
  rw [Nat.mul_comm]
  rfl

theorem decimalValue_toDigits (n : Nat) : decimalValue (Nat.toDigits 10 n) = n := by
  rw [decimalValue_eq]
  exact Nat.ofDigitChars_ten_toDigits

/-- Only zero has a leading zero. -/
theorem head?_toDigits_ne {n : Nat} (h : 0 < n) : (Nat.toDigits 10 n).head? ≠ some '0' := by
  induction n using Nat.strongRecOn with
  | ind n ih =>
    by_cases hn : n < 10
    · rw [Nat.toDigits_of_lt_base hn]
      intro h0
      have := Nat.digitChar_eq_zero.mp (Option.some.inj h0)
      omega
    · rw [Nat.toDigits_of_base_le (by decide) (by omega)]
      have hlead := ih (n / 10) (by omega) (by omega)
      cases hd : Nat.toDigits 10 (n / 10) with
      | nil => exact absurd hd Nat.toDigits_ne_nil
      | cons c cs => rw [hd] at hlead; simpa using hlead

/-- The digits of a number pass the check for leading zeros. -/
theorem toDigits_ne_zero_cons (n : Nat) (c : Char) (cs : List Char) :
    Nat.toDigits 10 n ≠ '0' :: c :: cs := by
  intro h
  rcases Nat.eq_zero_or_pos n with rfl | hn
  · rw [Nat.toDigits_zero] at h
    cases h
  · exact head?_toDigits_ne hn (by rw [h]; rfl)

theorem le_ofDigitChars (cs : List Char) (acc : Nat) : acc ≤ Nat.ofDigitChars 10 cs acc := by
  rw [Nat.ofDigitChars_eq_ofDigitChars_zero]
  have : 1 ≤ 10 ^ cs.length := Nat.one_le_pow _ _ (by decide)
  exact Nat.le_trans (Nat.le_mul_of_pos_left acc this) (Nat.le_add_right _ _)

/-- Digits that fit a word are all taken. -/
theorem significand_eq (cs : List Char) (acc : Nat) (h : Nat.ofDigitChars 10 cs acc < wordLimit) :
    significand acc cs = (Nat.ofDigitChars 10 cs acc, []) := by
  induction cs generalizing acc with
  | nil => rfl
  | cons c cs ih =>
    rw [Nat.ofDigitChars_cons] at h ⊢
    have hnext : acc * 10 + (c.toNat - 48) = 10 * acc + (c.toNat - '0'.toNat) := by
      rw [Nat.mul_comm]; rfl
    unfold significand
    dsimp only
    rw [hnext, if_pos (Nat.lt_of_le_of_lt (le_ofDigitChars cs _) h)]
    exact ih _ h

theorem significand_toDigits {n : Nat} (h : n < wordLimit) :
    significand 0 (Nat.toDigits 10 n) = (n, []) := by
  have hn : Nat.ofDigitChars 10 (Nat.toDigits 10 n) 0 = n := Nat.ofDigitChars_ten_toDigits
  rw [significand_eq _ _ (by rw [hn]; exact h), hn]

/-! ## Numbers -/

/-- What follows the digits of a number decides how it is read. -/
def readBehind (negative : Bool) (n : Nat) (left : List Char) (rest : List Char) :
    Option (Json × List Char) :=
  match rest with
  | '.' :: cs => readFraction negative n left.length cs
  | 'e' :: cs => readExponent negative n left.length cs
  | 'E' :: cs => readExponent negative n left.length cs
  | cs =>
    if left.isEmpty && !negative then some (int n, cs)
    else if left.isEmpty && 0 < n && n ≤ wordLimit / 2 then some (int (-n), cs)
    else (doubleOf? negative n left.length).map fun x => (double x, cs)

theorem readMagnitude_append (negative : Bool) {ds rest : List Char} (hne : ds ≠ [])
    (hzero : ∀ c cs, ds ≠ '0' :: c :: cs) (hds : ∀ c ∈ ds, c.isDigit = true)
    (hrest : ∀ c ∈ rest.head?, c.isDigit = false) :
    readMagnitude negative (ds ++ rest) =
      readBehind negative (significand 0 ds).1 (significand 0 ds).2 rest := by
  unfold readMagnitude
  rw [digitsOf_append hds hrest, dropDigits_append hds hrest]
  dsimp only
  split
  · exact absurd rfl hne
  · next c cs => exact absurd rfl (hzero c cs)
  · unfold readBehind
    rfl

theorem readBehind_of_ends {rest : List Char} (h : EndsNumber rest) (negative : Bool) (n : Nat)
    (left : List Char) : readBehind negative n left rest =
      if left.isEmpty && !negative then some (int n, rest)
      else if left.isEmpty && 0 < n && n ≤ wordLimit / 2 then some (int (-n), rest)
      else (doubleOf? negative n left.length).map fun x => (double x, rest) := by
  unfold readBehind
  split
  · exact absurd (h '.' rfl) (by decide)
  · exact absurd (h 'e' rfl) (by decide)
  · exact absurd (h 'E' rfl) (by decide)
  · rfl

/-- A natural number that fits a word is read back. -/
theorem readMagnitude_toDigits {n : Nat} (hn : n < wordLimit) {rest : List Char}
    (hrest : EndsNumber rest) :
    readMagnitude false (Nat.toDigits 10 n ++ rest) = some (int n, rest) := by
  rw [readMagnitude_append false Nat.toDigits_ne_nil (toDigits_ne_zero_cons n)
    (fun c => isDigit_of_mem_toDigits) hrest.isDigit, significand_toDigits hn,
    readBehind_of_ends hrest]
  rfl

/-- So is a negative number, down to half of that. -/
theorem readMagnitude_neg_toDigits {n : Nat} (hpos : 0 < n) (hn : n ≤ wordLimit / 2)
    {rest : List Char} (hrest : EndsNumber rest) :
    readMagnitude true (Nat.toDigits 10 n ++ rest) = some (int (-n), rest) := by
  have hlt : n < wordLimit := by unfold wordLimit at hn ⊢; omega
  rw [readMagnitude_append true Nat.toDigits_ne_nil (toDigits_ne_zero_cons n)
    (fun c => isDigit_of_mem_toDigits) hrest.isDigit, significand_toDigits hlt,
    readBehind_of_ends hrest]
  simp [hpos, hn]

end DocQuery.Json
