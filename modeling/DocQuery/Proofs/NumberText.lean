import DocQuery.Proofs.JsonText
import DocQuery.Proofs.ShortestDigits

/-
  The text of a finite double is read as a double. Each layout of its digits is read to the same
  digits and the same power of ten; a whole number that is written out is read with one zero more.
-/

namespace DocQuery.Json
open Double

/-- The text of a finite double, its sign left out. -/
def magnitudeText (x : Double) : List Char :=
  let d := x.shortest .toEven
  if NumberLayout.json.positional d.lead then d.positionalText true else d.exponentText true

theorem printDouble_eq {x : Double} (hx : x.isFinite = true) :
    printDouble x = if x.isNegative then '-' :: magnitudeText x else magnitudeText x := by
  have hlt : x.magnitude < Double.infinityMagnitude := of_decide_eq_true hx
  have hnan : x.isNaN = false := decide_eq_false (by omega)
  have hinf : x.isInfinite = false := decide_eq_false (by omega)
  unfold printDouble NumberLayout.text
  rw [if_pos hx, hnan, hinf]
  rfl

/-! ## Fractions and exponents -/

/-- The outcome of a number that ends in front of a text. -/
def readDouble (negative : Bool) (n : Nat) (e : Int) (rest : List Char) :
    Option (Json × List Char) :=
  (doubleOf? negative n e).map fun x => (double x, rest)

theorem isDigit_false_of_cons {c : Char} (hc : c.isDigit = false) (rest : List Char) :
    ∀ d ∈ (c :: rest).head?, d.isDigit = false := by
  intro d hd
  cases hd
  exact hc

/-- What follows the digits of a fraction. -/
def readAfter (negative : Bool) (n : Nat) (e : Int) (rest : List Char) :
    Option (Json × List Char) :=
  match rest with
  | 'e' :: cs => readExponent negative n e cs
  | 'E' :: cs => readExponent negative n e cs
  | cs => readDouble negative n e cs

theorem readAfter_of_ends (negative : Bool) (n : Nat) (e : Int) {rest : List Char}
    (hrest : EndsNumber rest) : readAfter negative n e rest = readDouble negative n e rest := by
  unfold readAfter
  split
  · exact absurd (hrest 'e' rfl) (by decide)
  · exact absurd (hrest 'E' rfl) (by decide)
  · rfl

/-- A fraction whose digits fit the word, in front of anything but a digit. -/
theorem readFraction_append (negative : Bool) {n m : Nat} (e : Int) {ds rest : List Char}
    (hne : ds ≠ []) (hds : ∀ c ∈ ds, c.isDigit = true) (hm : Nat.ofDigitChars 10 ds n = m)
    (hword : m < wordLimit) (hrest : ∀ c ∈ rest.head?, c.isDigit = false) :
    readFraction negative n e (ds ++ rest) = readAfter negative m (e - ds.length) rest := by
  subst hm
  unfold readFraction
  rw [digitsOf_append hds hrest, dropDigits_append hds hrest]
  dsimp only
  rw [significand_eq ds n hword, if_neg (by simpa using hne)]
  rfl

/-- What is read of an exponent after its sign. -/
def readSize (negative : Bool) (n : Nat) (e : Int) (down : Bool) (cs : List Char) :
    Option (Json × List Char) :=
  let digits := digitsOf cs
  if digits.isEmpty then none
  else
    let size := decimalValue digits
    if exponentLimit < size then
      if n ≠ 0 && !down then none else some (double (Double.zero negative), dropDigits cs)
    else
      let total := if down then max (e - size) (-2147483648) else min (e + size) 2147483647
      readDouble negative n total (dropDigits cs)

/-- The size of an exponent, as it is printed. -/
theorem readSize_toDigits (negative : Bool) (n : Nat) {e : Int} (down : Bool) {size : Nat}
    {rest : List Char} (hrest : EndsNumber rest) (he : e.natAbs ≤ 2000) (hsize : size ≤ 2000) :
    readSize negative n e down (Nat.toDigits 10 size ++ rest) =
      readDouble negative n (if down then e - size else e + size) rest := by
  have hds : ∀ c ∈ Nat.toDigits 10 size, c.isDigit = true := fun c => isDigit_of_mem_toDigits
  have hlimit : ¬ exponentLimit < size := by unfold exponentLimit; omega
  unfold readSize
  rw [digitsOf_append hds hrest.isDigit, dropDigits_append hds hrest.isDigit]
  dsimp only
  rw [if_neg (by simp), decimalValue_toDigits, if_neg hlimit]
  congr 1
  split <;> omega

/-- An exponent as it is printed, with its sign. -/
def exponentChars (i : Int) : List Char :=
  if i < 0 then '-' :: Nat.toDigits 10 i.natAbs else '+' :: Nat.toDigits 10 i.natAbs

theorem readExponent_exponentChars (negative : Bool) (n : Nat) {e i : Int} {rest : List Char}
    (hrest : EndsNumber rest) (he : e.natAbs ≤ 2000) (hi : i.natAbs ≤ 2000) :
    readExponent negative n e (exponentChars i ++ rest) = readDouble negative n (e + i) rest := by
  unfold exponentChars
  split
  · next hneg =>
    show readSize negative n e true (Nat.toDigits 10 i.natAbs ++ rest) = _
    rw [readSize_toDigits negative n true hrest he hi, if_pos rfl]
    congr 1
    omega
  · next hneg =>
    show readSize negative n e false (Nat.toDigits 10 i.natAbs ++ rest) = _
    rw [readSize_toDigits negative n false hrest he hi, if_neg Bool.false_ne_true]
    congr 1
    omega

/-! ## The layouts -/

theorem chars_ne_nil (d : Decimal) : d.chars ≠ [] := Nat.toDigits_ne_nil

theorem isDigit_of_mem_chars {d : Decimal} {c : Char} (h : c ∈ d.chars) : c.isDigit = true :=
  isDigit_of_mem_toDigits h

theorem ofDigitChars_chars (d : Decimal) : Nat.ofDigitChars 10 d.chars 0 = d.digits :=
  Nat.ofDigitChars_ten_toDigits

/-- No front part of the digits has a leading zero. -/
theorem chars_ne_zero_cons {d : Decimal} (hpos : 0 < d.digits) {whole rest : List Char}
    (h : whole = '0' :: rest) (behind : List Char) : d.chars ≠ whole ++ behind := by
  intro hchars
  subst h
  refine head?_toDigits_ne hpos ?_
  show d.chars.head? = _
  rw [hchars]
  rfl

/-- The digits before a point, in front of a fraction. -/
theorem readMagnitude_point (negative : Bool) {whole rest : List Char} {n : Nat}
    (hne : whole ≠ []) (hzero : ∀ c cs, whole ≠ '0' :: c :: cs)
    (hds : ∀ c ∈ whole, c.isDigit = true) (hn : Nat.ofDigitChars 10 whole 0 = n)
    (hword : n < wordLimit) :
    readMagnitude negative (whole ++ '.' :: rest) = readFraction negative n 0 rest := by
  subst hn
  rw [readMagnitude_append negative hne hzero hds (isDigit_false_of_cons (by decide) rest),
    significand_eq whole 0 hword]
  rfl

/-- Positional with all digits before the point: a zero stands behind it. -/
theorem read_whole (negative : Bool) {d : Decimal} {rest : List Char} (hrest : EndsNumber rest)
    (hexp : 0 ≤ d.exponent) (hlead : d.lead < 16) (hzero : d.digits = 0 → d.exponent = 0) :
    readMagnitude negative (d.positionalText true ++ rest) =
      readDouble negative (d.digits * 10 ^ d.exponent.toNat * 10) (-1) rest := by
  obtain ⟨k, hk⟩ := Int.eq_ofNat_of_zero_le hexp
  unfold Decimal.lead at hlead
  have hlen : d.digits < 10 ^ d.chars.length :=
    (Nat.length_toDigits_le_iff (by decide) Nat.length_toDigits_pos).mp (Nat.le_refl _)
  have hsmall : d.digits * 10 ^ k < 10 ^ 16 :=
    calc d.digits * 10 ^ k
        < 10 ^ d.chars.length * 10 ^ k := Nat.mul_lt_mul_of_pos_right hlen (Nat.pow_pos (by decide))
      _ = 10 ^ (d.chars.length + k) := (Nat.pow_add _ _ _).symm
      _ ≤ 10 ^ 16 := Nat.pow_le_pow_right (by decide) (by omega)
  have hwhole : Nat.ofDigitChars 10 (d.chars ++ List.replicate k '0') 0 = d.digits * 10 ^ k := by
    rw [Nat.ofDigitChars_append, ofDigitChars_chars, Nat.ofDigitChars_replicate_zero, Nat.mul_comm]
  have htext : d.positionalText true ++ rest
      = (d.chars ++ List.replicate k '0') ++ '.' :: (['0'] ++ rest) := by
    unfold Decimal.positionalText
    dsimp only
    rw [if_pos hexp, hk, Int.toNat_natCast, if_pos rfl, List.append_assoc _ ['.', '0']]
    rfl
  rw [htext, hk, Int.toNat_natCast, readMagnitude_point negative ?_ ?_ ?_ hwhole ?_,
    readFraction_append negative 0 (m := d.digits * 10 ^ k * 10) (by simp) (by simp) ?_ ?_
      hrest.isDigit, readAfter_of_ends negative _ _ hrest]
  · rfl
  · rw [Nat.ofDigitChars_cons, Nat.ofDigitChars_nil]
    show 10 * (d.digits * 10 ^ k) + 0 = _
    omega
  · unfold wordLimit
    omega
  · intro h
    exact chars_ne_nil d (List.append_eq_nil_iff.mp h).1
  · intro c cs h
    rcases Nat.eq_zero_or_pos d.digits with hd | hpos
    · have hk0 : k = 0 := by have := hzero hd; omega
      unfold Decimal.chars at h
      rw [hk0, hd, Nat.toDigits_zero] at h
      cases h
    · cases hc : d.chars with
      | nil => exact chars_ne_nil d hc
      | cons c' cs' =>
        rw [hc] at h
        exact chars_ne_zero_cons hpos (List.cons_eq_cons.mpr ⟨(List.cons.inj h).1, rfl⟩) [] (by
          rw [hc, List.append_nil])
  · intro c hc
    rcases List.mem_append.mp hc with hc | hc
    · exact isDigit_of_mem_chars hc
    · rw [List.eq_of_mem_replicate hc]
      rfl
  · unfold wordLimit
    omega

variable {negative : Bool} {d : Decimal} {rest : List Char}

/-- A point among the digits. -/
theorem readMagnitude_split (hpos : 0 < d.digits) (hword : d.digits < wordLimit)
    {whole frac : List Char} (hchars : d.chars = whole ++ frac) (hwhole : whole ≠ [])
    (hfrac : frac ≠ []) (hrest : ∀ c ∈ rest.head?, c.isDigit = false) :
    readMagnitude negative (whole ++ '.' :: (frac ++ rest)) =
      readAfter negative d.digits (-frac.length) rest := by
  have hdigits (c : Char) (hc : c ∈ whole ++ frac) : c.isDigit = true := by
    rw [← hchars] at hc
    exact isDigit_of_mem_chars hc
  have hvalue : Nat.ofDigitChars 10 frac (Nat.ofDigitChars 10 whole 0) = d.digits := by
    rw [← Nat.ofDigitChars_append, ← hchars, ofDigitChars_chars]
  have hle := le_ofDigitChars frac (Nat.ofDigitChars 10 whole 0)
  rw [readMagnitude_point negative hwhole
    (fun c cs h => chars_ne_zero_cons hpos h frac hchars)
    (fun c hc => hdigits c (List.mem_append_left _ hc)) rfl (by omega),
    readFraction_append negative 0 hfrac (fun c hc => hdigits c (List.mem_append_right _ hc)) hvalue
      hword hrest, Int.zero_sub]

/-- Positional with the point among the digits. -/
theorem read_pointed (hrest : EndsNumber rest) (hpos : 0 < d.digits)
    (hword : d.digits < wordLimit) (hexp : d.exponent < 0) (hlead : 0 ≤ d.lead) :
    readMagnitude negative (d.positionalText true ++ rest) =
      readDouble negative d.digits d.exponent rest := by
  have hlen : d.lead = d.exponent + d.chars.length - 1 := rfl
  have htext : d.positionalText true ++ rest =
      d.chars.take (d.lead.toNat + 1) ++ '.' :: (d.chars.drop (d.lead.toNat + 1) ++ rest) := by
    unfold Decimal.positionalText
    dsimp only
    rw [if_neg (by omega), if_pos hlead, List.append_assoc, List.cons_append]
  have hdrop : (d.chars.drop (d.lead.toNat + 1)).length = (-d.exponent).toNat := by
    rw [List.length_drop]
    omega
  have htake : (d.chars.take (d.lead.toNat + 1)).length = d.lead.toNat + 1 := by
    rw [List.length_take]
    omega
  rw [htext, readMagnitude_split hpos hword (List.take_append_drop _ _).symm
    (List.ne_nil_of_length_pos (by omega)) (List.ne_nil_of_length_pos (by omega)) hrest.isDigit,
    readAfter_of_ends negative _ _ hrest, hdrop]
  congr 1
  omega

/-- Positional with zeros behind the point. -/
theorem read_small (hrest : EndsNumber rest) (hword : d.digits < wordLimit)
    (hexp : d.exponent < 0) (hlead : d.lead < 0) :
    readMagnitude negative (d.positionalText true ++ rest) =
      readDouble negative d.digits d.exponent rest := by
  have hlen : d.lead = d.exponent + d.chars.length - 1 := rfl
  have htext : d.positionalText true ++ rest =
      ['0'] ++ '.' :: ((List.replicate ((-d.lead).toNat - 1) '0' ++ d.chars) ++ rest) := by
    unfold Decimal.positionalText
    dsimp only
    rw [if_neg (by omega), if_neg (by omega)]
    rfl
  have hdigits (c : Char) (hc : c ∈ List.replicate ((-d.lead).toNat - 1) '0' ++ d.chars) :
      c.isDigit = true := by
    rcases List.mem_append.mp hc with hc | hc
    · rw [List.eq_of_mem_replicate hc]
      rfl
    · exact isDigit_of_mem_chars hc
  have hvalue :
      Nat.ofDigitChars 10 (List.replicate ((-d.lead).toNat - 1) '0' ++ d.chars) 0 = d.digits := by
    rw [Nat.ofDigitChars_append, Nat.ofDigitChars_replicate_zero, Nat.mul_zero, ofDigitChars_chars]
  have hnought : Nat.ofDigitChars 10 ['0'] 0 = 0 := rfl
  rw [htext, readMagnitude_point negative (by simp) (by simp) (by simp) hnought (by decide),
    readFraction_append negative 0 (fun h => chars_ne_nil d (List.append_eq_nil_iff.mp h).2)
      hdigits hvalue hword hrest.isDigit, readAfter_of_ends negative _ _ hrest, List.length_append,
    List.length_replicate]
  congr 1
  push_cast
  omega

/-- The digits in front of an exponent. -/
def mantissaText : List Char → List Char
  | [] => []
  | [c] => [c]
  | c :: rest => c :: '.' :: rest

theorem exponentText_append (d : Decimal) (rest : List Char) : d.exponentText true ++ rest =
    mantissaText d.chars ++ 'e' :: (exponentChars d.lead ++ rest) := by
  unfold Decimal.exponentText exponentChars
  dsimp only
  rw [List.append_assoc, if_pos rfl]
  rfl

/-- With an exponent. -/
theorem read_exponent (hrest : EndsNumber rest) (hpos : 0 < d.digits)
    (hword : d.digits < wordLimit) (hlen : d.chars.length ≤ 20) (hlow : -1000 ≤ d.exponent)
    (hhigh : d.exponent ≤ 308) :
    readMagnitude negative (d.exponentText true ++ rest) =
      readDouble negative d.digits d.exponent rest := by
  have hlead : d.lead = d.exponent + d.chars.length - 1 := rfl
  have hmark : ∀ c ∈ ('e' :: (exponentChars d.lead ++ rest)).head?, c.isDigit = false :=
    isDigit_false_of_cons (by decide) _
  rw [exponentText_append]
  unfold mantissaText
  split
  · next hchars => exact absurd hchars (chars_ne_nil d)
  · next c hchars =>
    have hvalue : Nat.ofDigitChars 10 [c] 0 = d.digits := by rw [← hchars, ofDigitChars_chars]
    rw [readMagnitude_append negative (by simp)
      (fun c cs h => chars_ne_zero_cons hpos h [] (by rw [hchars, List.append_nil]))
      (fun c hc => isDigit_of_mem_chars (by rw [hchars]; exact hc)) hmark,
      significand_eq [c] 0 (by rw [hvalue]; exact hword), hvalue]
    show readExponent negative d.digits 0 (exponentChars d.lead ++ rest) = _
    rw [readExponent_exponentChars negative _ hrest (by decide) (by omega), hlead, hchars]
    congr 1
    simp
  · next c cs hone hchars =>
    have hcs : cs ≠ [] := fun h => hone (by rw [h])
    have hlength : d.chars.length = cs.length + 1 := by rw [hchars]; rfl
    show readMagnitude negative ([c] ++ '.' :: (cs ++ 'e' :: (exponentChars d.lead ++ rest))) = _
    rw [readMagnitude_split hpos hword hchars (by simp) hcs hmark]
    show readExponent negative d.digits (-cs.length) (exponentChars d.lead ++ rest) = _
    rw [readExponent_exponentChars negative _ hrest (by omega) (by omega)]
    congr 1
    omega

/-! ## Doubles -/

theorem magnitudeText_eq {x : Double} {d : Decimal} (hd : x.shortest .toEven = d) :
    magnitudeText x = if NumberLayout.json.positional d.lead then d.positionalText true
      else d.exponentText true := by
  rw [← hd]
  rfl

theorem lead_lt_of_positional {i : Int} (h : NumberLayout.json.positional i = true) : i < 16 := by
  unfold NumberLayout.json at h
  simp only [Bool.and_eq_true, decide_eq_true_eq] at h
  exact h.2

theorem exists_doubleOf?_of_neg (negative : Bool) (n : Nat) {e : Int} (he : e < 0)
    (hlow : -1232 ≤ e) : ∃ y, doubleOf? negative n e = some y := by
  obtain ⟨y, hy⟩ := exists_scaled?_of_neg 4 (Double.ofInt n) he (by omega)
  unfold doubleOf?
  rw [hy]
  exact ⟨_, rfl⟩

/-- The decimal that the text of a finite double is read as, before it becomes a double. -/
theorem exists_read_decimal (negative : Bool) {x : Double} (hx : x.isFinite = true) :
    ∃ n e, (∃ y, doubleOf? negative n e = some y) ∧ ∀ rest, EndsNumber rest →
      readMagnitude negative (magnitudeText x ++ rest) = readDouble negative n e rest := by
  by_cases h : x.magnitude = 0
  · have hd : x.shortest .toEven = ⟨0, 0⟩ := by unfold shortest; rw [if_pos h]
    refine ⟨0, -1, exists_doubleOf?_of_neg negative _ (by decide) (by decide), ?_⟩
    intro rest hrest
    rw [magnitudeText_eq hd, if_pos (by decide)]
    exact read_whole negative hrest (by decide) (by decide) (fun _ => rfl)
  · obtain ⟨hpos, hword, hlow, -⟩ := digits_shortest .toEven hx h
    have hhigh := exponent_shortest_le .toEven hx h
    have hdouble := exists_doubleOf?_shortest negative hx h
    generalize hd : x.shortest .toEven = d at *
    cases hpositional : NumberLayout.json.positional d.lead with
    | true =>
      rcases Int.lt_or_le d.exponent 0 with hneg | hnonneg
      · refine ⟨_, _, hdouble, ?_⟩
        intro rest hrest
        rw [magnitudeText_eq hd, if_pos hpositional]
        rcases Int.lt_or_le d.lead 0 with hsmall | hlead
        · exact read_small hrest hword hneg hsmall
        · exact read_pointed hrest hpos hword hneg hlead
      · refine ⟨d.digits * 10 ^ d.exponent.toNat * 10, -1,
          exists_doubleOf?_of_neg negative _ (by decide) (by decide), ?_⟩
        intro rest hrest
        rw [magnitudeText_eq hd, if_pos hpositional]
        exact read_whole negative hrest hnonneg (lead_lt_of_positional hpositional)
          (fun h0 => absurd h0 hpos.ne')
    | false =>
      have hlen : d.chars.length ≤ 20 :=
        (Nat.length_toDigits_le_iff (by decide) (by decide)).mpr
          (Nat.lt_of_lt_of_le hword (by unfold wordLimit; norm_num))
      refine ⟨_, _, hdouble, ?_⟩
      intro rest hrest
      rw [magnitudeText_eq hd, hpositional, if_neg Bool.false_ne_true]
      exact read_exponent hrest hpos hword hlen hlow hhigh

/-- The text of a finite double without its sign is read as some double. -/
theorem exists_read_magnitudeText (negative : Bool) {x : Double} (hx : x.isFinite = true) :
    ∃ y, ∀ rest, EndsNumber rest →
      readMagnitude negative (magnitudeText x ++ rest) = some (double y, rest) := by
  obtain ⟨n, e, ⟨y, hy⟩, hread⟩ := exists_read_decimal negative hx
  refine ⟨y, ?_⟩
  intro rest hrest
  rw [hread rest hrest]
  unfold readDouble
  rw [hy]
  rfl

theorem readNumber_of_readMagnitude {cs : List Char} {r : Json × List Char}
    (h : readMagnitude false cs = some r) : readNumber cs = some r := by
  unfold readNumber
  split
  · next t =>
    rw [readMagnitude_cons (by decide)] at h
    cases h
  · exact h

/-- The text of every finite double is read as a double. -/
theorem fits_double {x : Double} (hx : x.isFinite = true) : Fits (.double x) := by
  obtain ⟨y, hy⟩ : ∃ y, ∀ rest, EndsNumber rest →
      readNumber (printDouble x ++ rest) = some (double y, rest) := by
    rw [printDouble_eq hx]
    cases x.isNegative with
    | true => exact exists_read_magnitudeText true hx
    | false =>
      obtain ⟨y, hy⟩ := exists_read_magnitudeText false hx
      refine ⟨y, ?_⟩
      intro rest hrest
      exact readNumber_of_readMagnitude (hy rest hrest)
  have hreread : rereadDouble x = y := by
    have hread := hy [] (by intro c hc; cases hc)
    rw [List.append_nil] at hread
    unfold rereadDouble
    rw [hread]
  intro rest hrest
  rw [hreread]
  exact hy rest hrest

end DocQuery.Json
