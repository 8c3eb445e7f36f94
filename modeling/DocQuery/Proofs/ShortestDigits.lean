import DocQuery.Proofs.Scaling
import DocQuery.Double.Shortest

/-
  The digits of a finite double can be read again: they fit a word, and the word times its power of
  ten is a double. The digits lie inside the interval of reals that round to the number, and that
  interval leaves room for the roundings of the reader, except at the two largest doubles, whose
  digits are computed.
-/

namespace DocQuery.Double
open Json

/-! ## Comparing decimals with binary numbers -/

/-- One factor makes whole numbers of all multiples of a power of ten and of a power of two. -/
theorem exists_scale (k q : Int) : ∃ s : ℚ, 0 < s ∧
    (∀ c : Nat, (c : ℚ) * 10 ^ k * s = (c * tenTo k.toNat * twoTo (-q).toNat : Nat)) ∧
    ∀ a : Nat, (a : ℚ) * 2 ^ q * s = (a * twoTo q.toNat * tenTo (-k).toNat : Nat) := by
  have split (b : ℚ) (hb : b ≠ 0) (i : Int) : b ^ i * b ^ (-i).toNat = b ^ i.toNat := by
    rw [← zpow_natCast, ← zpow_natCast, ← zpow_add₀ hb]
    congr 1
    omega
  refine ⟨10 ^ (-k).toNat * 2 ^ (-q).toNat, by positivity, ?_, ?_⟩
  · intro c
    push_cast
    rw [tenTo_cast, twoTo_cast, ← split 10 (by norm_num) k]
    ring
  · intro a
    push_cast
    rw [twoTo_cast, tenTo_cast, ← split 2 (by norm_num) q]
    ring

theorem compareDecimal_ne_gt {c a : Nat} {k q : Int} :
    compareDecimal c k a q ≠ .gt ↔ (c : ℚ) * 10 ^ k ≤ a * 2 ^ q := by
  obtain ⟨s, hs, hten, htwo⟩ := exists_scale k q
  unfold compareDecimal
  rw [ne_eq, Nat.compare_eq_gt, not_lt, ← mul_le_mul_iff_of_pos_right hs, hten, htwo]
  exact Nat.cast_le.symm

theorem compareDecimal_ne_lt {c a : Nat} {k q : Int} :
    compareDecimal c k a q ≠ .lt ↔ (a : ℚ) * 2 ^ q ≤ c * 10 ^ k := by
  obtain ⟨s, hs, hten, htwo⟩ := exists_scale k q
  unfold compareDecimal
  rw [ne_eq, Nat.compare_eq_lt, not_lt, ← mul_le_mul_iff_of_pos_right hs, hten, htwo]
  exact Nat.cast_le.symm

theorem le_floorUnits_iff (x : Double) (k : Int) (c : Nat) :
    c ≤ x.floorUnits k ↔ (c : ℚ) * 10 ^ k ≤ x.size := by
  obtain ⟨s, hs, hten, htwo⟩ := exists_scale k x.parts.2
  have hunit : 0 < tenTo k.toNat * twoTo (-x.parts.2).toNat :=
    Nat.mul_pos (Nat.pow_pos (by decide)) (Nat.pow_pos (by decide))
  have hfloor : x.floorUnits k = x.parts.1 * twoTo x.parts.2.toNat * tenTo (-k).toNat /
      (tenTo k.toNat * twoTo (-x.parts.2).toNat) := rfl
  unfold size
  rw [hfloor, Nat.le_div_iff_mul_le hunit, ← mul_le_mul_iff_of_pos_right hs, hten, htwo, ← Nat.mul_assoc]
  exact Nat.cast_le.symm

/-! ## The interval of a number -/

/-- The upper end of the reals that round to a finite double. -/
def upperEnd (x : Double) : ℚ := (x.parts.1 + 1 / 2) * 2 ^ x.parts.2

theorem size_le_upperEnd (x : Double) : x.size ≤ x.upperEnd := by
  unfold size upperEnd
  refine mul_le_mul_of_nonneg_right ?_ (by positivity)
  linarith

/-- A decimal that rounds to a number other than zero is above zero, and at most the end. -/
theorem bounds_of_roundsTo {x : Double} (hx : 0 < x.parts.1) {c : Nat} {k : Int}
    (h : x.roundsTo c k = true) : 0 < c ∧ (c : ℚ) * 10 ^ k ≤ x.upperEnd := by
  unfold roundsTo at h
  obtain ⟨low, q, closed, hinterval, hlow⟩ : ∃ low q closed,
      x.roundingInterval = (low, 4 * x.parts.1 + 2, x.parts.2 - 2, closed) ∧
        0 < low ∧ q = x.parts.2 := by
    refine ⟨if x.parts.1 = leadingBit && x.parts.2 > -1074 then 4 * x.parts.1 - 1
      else 4 * x.parts.1 - 2, _, _, rfl, ?_, rfl⟩
    split <;> omega
  rw [hinterval] at h
  dsimp only at h
  rw [Bool.and_eq_true] at h
  have hbelow : compareDecimal c k low (x.parts.2 - 2) ≠ .lt := by
    intro he
    rw [he] at h
    simp at h
  have habove : compareDecimal c k (4 * x.parts.1 + 2) (x.parts.2 - 2) ≠ .gt := by
    intro he
    rw [he] at h
    simp at h
  rw [compareDecimal_ne_lt] at hbelow
  rw [compareDecimal_ne_gt] at habove
  refine ⟨?_, le_of_le_of_eq habove ?_⟩
  · by_contra hc
    rw [Nat.eq_zero_of_not_pos hc, Nat.cast_zero, zero_mul] at hbelow
    have hpos : (0 : ℚ) < low := by exact_mod_cast hlow.1
    exact absurd hbelow (not_le.mpr (by positivity))
  · unfold upperEnd
    rw [zpow_sub₀ (by norm_num)]
    push_cast
    norm_num
    ring

theorem roundsTo_of_nearestOnGrid? {tie : Tie} {x : Double} {k : Int} {c : Nat}
    (h : x.nearestOnGrid? tie k = some c) :
    x.roundsTo c k = true ∧ c ≤ x.floorUnits k + 1 := by
  unfold nearestOnGrid? at h
  dsimp only at h
  split at h
  · next hlow _ =>
    cases h
    exact ⟨hlow, Nat.le_succ _⟩
  · next _ hhigh =>
    cases h
    exact ⟨hhigh, Nat.le_refl _⟩
  · cases h
  · next hlow hhigh =>
    split at h
    · cases h
      exact ⟨hlow, Nat.le_succ _⟩
    · cases h
      exact ⟨hhigh, Nat.le_refl _⟩
    · split at h
      · cases h
        exact ⟨hlow, Nat.le_succ _⟩
      · cases h
        exact ⟨hhigh, Nat.le_refl _⟩

/-! ## The leading digit -/

theorem parts_pos {x : Double} (h : x.magnitude ≠ 0) : 0 < x.parts.1 := by
  have hdiv := Nat.div_add_mod x.magnitude leadingBit
  rw [parts_eq]
  split
  · next he =>
    rw [he] at hdiv
    dsimp only
    omega
  · exact Nat.lt_of_lt_of_le (by decide) (Nat.le_add_left _ _)

theorem parts_bounds {x : Double} (h : x.isFinite = true) :
    x.parts.1 < 2 * leadingBit ∧ -1074 ≤ x.parts.2 ∧ x.parts.2 ≤ 971 := by
  have hmod : x.magnitude % leadingBit < leadingBit := Nat.mod_lt _ (by decide)
  have hdiv : x.magnitude / leadingBit < 2047 := by
    rw [Nat.div_lt_iff_lt_mul (by decide)]
    exact of_decide_eq_true h
  rw [parts_eq]
  generalize x.magnitude / leadingBit = e at hdiv ⊢
  split
  · exact ⟨by dsimp only; omega, by dsimp only; omega, by dsimp only; omega⟩
  · exact ⟨by dsimp only; omega, by dsimp only; omega, by dsimp only; omega⟩

/-- The exponent of the leading binary digit. -/
def binaryLead (x : Double) : Int := Nat.log2 x.parts.1 + x.parts.2

theorem binaryLead_bounds {x : Double} (hx : x.isFinite = true) (h : x.magnitude ≠ 0) :
    -1074 ≤ x.binaryLead ∧ x.binaryLead < 1024 := by
  have hpos := parts_pos h
  obtain ⟨hm, hlow, hhigh⟩ := parts_bounds hx
  have hlog : Nat.log2 x.parts.1 < 53 := (Nat.log2_lt hpos.ne').mpr hm
  unfold binaryLead
  omega

theorem size_between {x : Double} (h : x.magnitude ≠ 0) :
    (2 : ℚ) ^ x.binaryLead ≤ x.size ∧ x.size < 2 ^ (x.binaryLead + 1) := by
  have hlow : (2 : ℚ) ^ Nat.log2 x.parts.1 ≤ x.parts.1 := by
    exact_mod_cast Nat.log2_self_le (parts_pos h).ne'
  have hhigh : (x.parts.1 : ℚ) < 2 ^ (Nat.log2 x.parts.1 + 1) := by
    exact_mod_cast Nat.lt_log2_self
  have hpow : (0 : ℚ) < 2 ^ x.parts.2 := by positivity
  unfold binaryLead size
  rw [add_right_comm, zpow_add₀ (by norm_num), zpow_add₀ (by norm_num), zpow_natCast,
    ← Nat.cast_succ, zpow_natCast]
  exact ⟨mul_le_mul_of_nonneg_right hlow hpow.le, mul_lt_mul_of_pos_right hhigh hpow⟩

/-- The guess that the decimal exponent is first taken for. -/
def decimalGuess (b : Int) : Int := b * 1233 / 4096

/-- The guess is near enough, checked for every exponent that a double has. -/
theorem decimalGuess_checked : ∀ i ∈ List.range 2098,
    compareDecimal 1 (decimalGuess (i - 1074) - 17) 1 (i - 1074) ≠ .gt ∧
      compareDecimal 1 (decimalGuess (i - 1074) + 3) 1 (i - 1074 + 1) ≠ .lt := by
  decide +kernel

theorem decimalGuess_bounds {b : Int} (hlow : -1074 ≤ b) (hhigh : b < 1024) :
    (10 : ℚ) ^ (decimalGuess b - 17) ≤ 2 ^ b ∧ (2 : ℚ) ^ (b + 1) ≤ 10 ^ (decimalGuess b + 3) := by
  have hchecked := decimalGuess_checked (b + 1074).toNat (List.mem_range.mpr (by omega))
  rw [Int.toNat_of_nonneg (by omega), add_sub_cancel_right, compareDecimal_ne_gt,
    compareDecimal_ne_lt, Nat.cast_one, one_mul, one_mul, one_mul, one_mul] at hchecked
  exact hchecked

theorem leadingExponent_bounds {x : Double} (hx : x.isFinite = true) (h : x.magnitude ≠ 0) :
    (10 : ℚ) ^ (x.leadingExponent - 16) ≤ x.size ∧ x.size < 10 ^ (x.leadingExponent + 2) ∧
      -326 ≤ x.leadingExponent := by
  obtain ⟨hlow, hhigh⟩ := binaryLead_bounds hx h
  obtain ⟨hbelow, habove⟩ := decimalGuess_bounds hlow hhigh
  have hsize := size_between h
  have hguess : -324 ≤ decimalGuess x.binaryLead := by
    unfold decimalGuess
    omega
  have hmono {i j : Int} (hij : i ≤ j) : (10 : ℚ) ^ i ≤ 10 ^ j :=
    zpow_le_zpow_right₀ (by norm_num) hij
  have hlead : x.leadingExponent =
      if compareDecimal 1 (decimalGuess x.binaryLead + 1) x.parts.1 x.parts.2 != .gt then
        decimalGuess x.binaryLead + 1
      else if compareDecimal 1 (decimalGuess x.binaryLead) x.parts.1 x.parts.2 != .gt then
        decimalGuess x.binaryLead
      else decimalGuess x.binaryLead - 1 := rfl
  rw [hlead]
  generalize decimalGuess x.binaryLead = g at *
  have hcompare (k : Int) :
      (compareDecimal 1 k x.parts.1 x.parts.2 != .gt) = true ↔ (10 : ℚ) ^ k ≤ x.size := by
    rw [bne_iff_ne, compareDecimal_ne_gt, Nat.cast_one, one_mul]
    rfl
  split
  · next hup =>
    rw [hcompare] at hup
    exact ⟨le_trans (hmono (by omega)) hup, lt_of_lt_of_le hsize.2 (le_trans habove (hmono (by omega))),
      by omega⟩
  · next hup =>
    rw [hcompare, not_le] at hup
    split
    · next heq =>
      rw [hcompare] at heq
      exact ⟨le_trans (hmono (by omega)) heq, lt_of_lt_of_le hup (hmono (by omega)), by omega⟩
    · next heq =>
      rw [hcompare, not_le] at heq
      exact ⟨le_trans (hmono (by omega)) (le_trans hbelow hsize.1),
        lt_of_lt_of_le heq (hmono (by omega)), by omega⟩

/-! ## The digits -/

/-- Digits that fit a word, not zero, with a power of ten that the reader's steps reach, and with a
value up to an end. -/
structure Digits (top : ℚ) (d : Decimal) : Prop where
  positive : 0 < d.digits
  word : d.digits < wordLimit
  reached : -1000 ≤ d.exponent
  below : (d.digits : ℚ) * 10 ^ d.exponent ≤ top

theorem Digits.trimZeros {top : ℚ} (fuel : Nat) {d : Decimal} (h : Digits top d) :
    Digits top (trimZeros fuel d) := by
  induction fuel generalizing d with
  | zero => exact h
  | succ fuel ih =>
    unfold Double.trimZeros
    split
    · next hzero =>
      have hdiv : d.digits = d.digits / 10 * 10 := by omega
      have hpos := h.positive
      have hword := h.word
      refine ih ⟨by dsimp only; omega, by dsimp only; omega, ?_, ?_⟩
      · exact Int.le_trans h.reached (Int.le_add_one (Int.le_refl _))
      · refine le_of_eq_of_le ?_ h.below
        conv_rhs => rw [hdiv]
        rw [zpow_add_one₀ (by norm_num)]
        push_cast
        ring
    · exact h

/-- On every grid of the search the digits fit a word. -/
theorem floorUnits_lt {x : Double} {lead : Int} (h : x.size < 10 ^ (lead + 2)) {k : Int}
    (hk : lead - 16 ≤ k) : x.floorUnits k + 1 < wordLimit := by
  have hle := (le_floorUnits_iff x k _).mp (Nat.le_refl _)
  have hpow : (10 : ℚ) ^ (lead + 2) ≤ 10 ^ 18 * 10 ^ k := by
    rw [← zpow_natCast, ← zpow_add₀ (by norm_num)]
    exact zpow_le_zpow_right₀ (by norm_num) (by push_cast; omega)
  have hlt : (x.floorUnits k : ℚ) < 10 ^ 18 :=
    lt_of_mul_lt_mul_right (lt_of_le_of_lt hle (lt_of_lt_of_le h hpow)) (by positivity)
  have hlt' : x.floorUnits k < 10 ^ 18 := by exact_mod_cast hlt
  unfold wordLimit
  omega

theorem digits_shortestFrom (tie : Tie) {x : Double} (hx : x.isFinite = true)
    (h : x.magnitude ≠ 0) (counts : List Nat) (hcounts : ∀ n ∈ counts, n ≤ 16) :
    Digits x.upperEnd (shortestFrom tie x x.leadingExponent counts) := by
  obtain ⟨hlow, hhigh, hlead⟩ := leadingExponent_bounds hx h
  induction counts with
  | nil =>
    have hword := floorUnits_lt hhigh (Int.le_refl _)
    have hbelow := (le_floorUnits_iff x (x.leadingExponent - 16) _).mp (Nat.le_refl _)
    have hone : 1 ≤ x.floorUnits (x.leadingExponent - 16) := by
      rw [le_floorUnits_iff, Nat.cast_one, one_mul]
      exact hlow
    exact ⟨hone, Nat.lt_of_succ_lt hword, by show -1000 ≤ x.leadingExponent - 16; omega,
      le_trans hbelow (size_le_upperEnd x)⟩
  | cons n rest ih =>
    have hn := hcounts n List.mem_cons_self
    unfold shortestFrom
    dsimp only
    split
    · next c hc =>
      obtain ⟨hround, hle⟩ := roundsTo_of_nearestOnGrid? hc
      obtain ⟨hpos, hbelow⟩ := bounds_of_roundsTo (parts_pos h) hround
      have hword := floorUnits_lt hhigh (k := x.leadingExponent - n) (by omega)
      exact Digits.trimZeros 18 ⟨hpos, Nat.lt_of_le_of_lt hle hword, by dsimp only; omega, hbelow⟩
    · refine ih ?_
      intro m hm
      exact hcounts m (List.mem_cons_of_mem n hm)

theorem digits_shortest (tie : Tie) {x : Double} (hx : x.isFinite = true) (h : x.magnitude ≠ 0) :
    Digits x.upperEnd (x.shortest tie) := by
  unfold shortest
  rw [if_neg h]
  refine digits_shortestFrom tie hx h _ ?_
  intro n hn
  have := List.mem_range.mp hn
  omega

/-! ## Reading them again -/

theorem add_le_of_le {m c : Nat} (h : m + c ≤ 2 * leadingBit) : (m : ℚ) + c ≤ 2 ^ 53 := by
  have hcast : ((m + c : ℕ) : ℚ) ≤ (2 * leadingBit : ℕ) := by exact_mod_cast h
  push_cast at hcast
  rw [leadingBit_cast] at hcast
  linarith

theorem upperEnd_lt {x : Double} (hx : x.isFinite = true) : x.upperEnd < 10 ^ 309 := by
  obtain ⟨hm, -, hq⟩ := parts_bounds hx
  have hm' := add_le_of_le (c := 1) hm
  have hpow : (2 : ℚ) ^ x.parts.2 ≤ 2 ^ (971 : ℤ) := zpow_le_zpow_right₀ (by norm_num) hq
  have hten : twoTo (53 + 971) < tenTo 309 := by decide +kernel
  have hten' : (twoTo (53 + 971) : ℚ) < tenTo 309 := by exact_mod_cast hten
  rw [twoTo_cast, tenTo_cast, pow_add] at hten'
  refine lt_of_le_of_lt ?_ hten'
  unfold upperEnd
  push_cast at hm'
  exact mul_le_mul (by linarith) hpow (by positivity) (by positivity)

/-- The exponent of the digits stays small. -/
theorem exponent_shortest_le (tie : Tie) {x : Double} (hx : x.isFinite = true)
    (h : x.magnitude ≠ 0) : (x.shortest tie).exponent ≤ 308 := by
  obtain ⟨hpos, -, -, hbelow⟩ := digits_shortest tie hx h
  by_contra hgt
  have hone : (1 : ℚ) ≤ (x.shortest tie).digits := by exact_mod_cast hpos
  have hpow : (10 : ℚ) ^ 309 ≤ 10 ^ (x.shortest tie).exponent := by
    rw [← zpow_natCast]
    exact zpow_le_zpow_right₀ (by norm_num) (by push_cast; omega)
  have hle := le_trans hpow (le_mul_of_one_le_left (by positivity) hone)
  exact absurd (le_trans hle hbelow) (not_le.mpr (upperEnd_lt hx))

/-- With the largest exponent, all but the two largest doubles have at least three units less than
the next power of two. -/
theorem parts_add_three_le {x : Double} (h : x.magnitude + 2 < infinityMagnitude)
    (hq : x.parts.2 = 971) : x.parts.1 + 3 ≤ 2 * leadingBit := by
  have hdiv := Nat.div_add_mod x.magnitude leadingBit
  rw [parts_eq] at hq ⊢
  generalize x.magnitude / leadingBit = e at hdiv hq ⊢
  split at hq
  · dsimp only at hq
    omega
  · next he =>
    have he' : e = 2046 := by dsimp only at hq; omega
    rw [if_neg he]
    dsimp only
    unfold infinityMagnitude at h
    unfold leadingBit at *
    omega

theorem upperEnd_le {x : Double} (h : x.magnitude + 2 < infinityMagnitude) :
    x.upperEnd ≤ (2 ^ 54 - 5) * 2 ^ 970 := by
  obtain ⟨hm, -, hq⟩ := parts_bounds (decide_eq_true (by omega) : x.isFinite = true)
  unfold upperEnd
  rcases Int.lt_or_eq_of_le hq with hlt | heq
  · have hm' := add_le_of_le (c := 1) hm
    have hpow : (2 : ℚ) ^ x.parts.2 ≤ 2 ^ (970 : ℤ) :=
      zpow_le_zpow_right₀ (by norm_num) (by omega)
    push_cast at hm'
    calc ((x.parts.1 : ℚ) + 1 / 2) * 2 ^ x.parts.2
        ≤ 2 ^ 53 * 2 ^ (970 : ℤ) := mul_le_mul (by linarith) hpow (by positivity) (by positivity)
      _ ≤ (2 ^ 54 - 5) * 2 ^ 970 := by
          rw [zpow_ofNat]
          exact mul_le_mul_of_nonneg_right (by norm_num) (by positivity)
  · have hm' := add_le_of_le (c := 3) (parts_add_three_le h heq)
    push_cast at hm'
    rw [heq, mul_two_pow_971]
    exact mul_le_mul_of_nonneg_right (by linarith) (by positivity)

/-- Away from the two largest doubles the interval leaves room for two roundings. -/
theorem upperEnd_mul_roundings {x : Double} (h : x.magnitude + 2 < infinityMagnitude) :
    x.upperEnd * roundings < overflow := by
  calc x.upperEnd * roundings
      ≤ (2 ^ 54 - 5) * 2 ^ 970 * roundings :=
        mul_le_mul_of_nonneg_right (upperEnd_le h) (le_trans zero_le_one one_le_roundings)
    _ = (2 ^ 54 - 5) * roundings * 2 ^ 970 := by
        generalize (2 : ℚ) ^ 970 = p
        ring
    _ < overflow := by
        refine mul_lt_mul_of_pos_right ?_ (by positivity)
        unfold roundings
        norm_num

/-- A double is made of its sign and its magnitude. -/
theorem ofMagnitude_self (x : Double) : ofMagnitude x.isNegative x.magnitude = x := by
  have hword : signBit + signBit = 2 ^ 64 := by unfold signBit; norm_num
  have hlt := x.bits.toNat_lt
  have hbits : (if x.isNegative then signBit + x.magnitude % signBit else x.magnitude % signBit)
      = x.bits.toNat := by
    unfold isNegative magnitude
    rw [Nat.mod_mod]
    split
    · next hneg =>
      have hle : signBit ≤ x.bits.toNat := of_decide_eq_true hneg
      rw [Nat.mod_eq_sub_mod hle, Nat.mod_eq_of_lt (by omega), Nat.add_sub_cancel' hle]
    · next hneg =>
      have hlt' : x.bits.toNat < signBit := by
        refine Nat.lt_of_not_le ?_
        intro hle
        exact hneg (decide_eq_true hle)
      exact Nat.mod_eq_of_lt hlt'
  unfold ofMagnitude
  rw [hbits, UInt64.ofNat_toNat]

/-- The two largest doubles, of either sign. -/
theorem scaled?_shortest_largest (negative : Bool) {i : Nat} (hi : i < 2) :
    ∃ y, scaled? 4 (Double.ofInt
      ((ofMagnitude negative (infinityMagnitude - (i + 1))).shortest .toEven).digits)
      ((ofMagnitude negative (infinityMagnitude - (i + 1))).shortest .toEven).exponent = some y := by
  rw [← Option.isSome_iff_exists]
  revert negative i
  decide +kernel

/-- The digits of a finite double are read as a double again. -/
theorem exists_doubleOf?_shortest (negative : Bool) {x : Double} (hx : x.isFinite = true)
    (h : x.magnitude ≠ 0) :
    ∃ y, doubleOf? negative (x.shortest .toEven).digits (x.shortest .toEven).exponent = some y := by
  suffices hscaled : ∃ y, scaled? 4 (Double.ofInt (x.shortest .toEven).digits)
      (x.shortest .toEven).exponent = some y by
    obtain ⟨y, hy⟩ := hscaled
    unfold doubleOf?
    rw [hy]
    exact ⟨_, rfl⟩
  have hfinite : x.magnitude < infinityMagnitude := of_decide_eq_true hx
  obtain ⟨hpos, -, hreached, hbelow⟩ := digits_shortest .toEven hx h
  rcases Nat.lt_or_ge (x.magnitude + 2) infinityMagnitude with hlt | hge
  · rcases Int.lt_or_le (x.shortest .toEven).exponent 0 with hneg | hnonneg
    · exact exists_scaled?_of_neg 4 _ hneg (by omega)
    · obtain ⟨k, hk⟩ := Int.eq_ofNat_of_zero_le hnonneg
      rw [hk, zpow_natCast] at hbelow
      rw [hk]
      refine exists_scaled?_of_nonneg hpos (lt_of_le_of_lt ?_ (upperEnd_mul_roundings hlt))
      exact mul_le_mul_of_nonneg_right hbelow (le_trans zero_le_one one_le_roundings)
  · obtain ⟨i, hi, hmag⟩ : ∃ i, i < 2 ∧ x.magnitude = infinityMagnitude - (i + 1) :=
      ⟨infinityMagnitude - 1 - x.magnitude, by omega, by omega⟩
    have hlargest := scaled?_shortest_largest x.isNegative hi
    rw [← hmag, ofMagnitude_self] at hlargest
    exact hlargest

end DocQuery.Double
