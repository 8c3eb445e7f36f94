import DocQuery.Double.Nearest
import Mathlib.Algebra.Order.Field.Power
import Mathlib.Tactic.FieldSimp
import Mathlib.Tactic.Linarith
import Mathlib.Tactic.Positivity
import Mathlib.Tactic.Ring

/-
  Rounding, in rational numbers. A fraction below the middle between the largest double and the
  next power of two is rounded to a finite double; what a rounding adds to a fraction from one on is
  at most one part in `2^53`. Both are read off the number of units that the fraction has: at least
  `2^52`, and one half at most too many.
-/

namespace DocQuery.Double

/-! ## The number that a double stands for -/

/-- The absolute value of a finite double. -/
def size (x : Double) : ℚ := x.parts.1 * 2 ^ x.parts.2

/-- The middle between the largest double and the next power of two: from here on a fraction is
rounded to infinity. -/
def overflow : ℚ := (2 ^ 54 - 1) * 2 ^ 970

theorem twoTo_cast (k : Nat) : (twoTo k : ℚ) = 2 ^ k := by
  show ((2 ^ k : Nat) : ℚ) = 2 ^ k
  push_cast
  rfl

theorem tenTo_cast (k : Nat) : (tenTo k : ℚ) = 10 ^ k := by
  show ((10 ^ k : Nat) : ℚ) = 10 ^ k
  push_cast
  rfl

/-- The unit of the largest doubles, in units of the next smaller ones. -/
theorem mul_two_pow_971 (a : ℚ) : a * 2 ^ (971 : ℤ) = 2 * a * 2 ^ 970 := by
  rw [show (971 : ℤ) = ((970 + 1 : ℕ) : ℤ) from rfl, zpow_natCast, pow_succ _ 970]
  generalize (2 : ℚ) ^ 970 = p
  ring

theorem leadingBit_cast : (leadingBit : ℚ) = 2 ^ 52 := by
  unfold leadingBit
  norm_num

theorem magnitude_ofMagnitude (negative : Bool) {m : Nat} (h : m < signBit) :
    (ofMagnitude negative m).magnitude = m := by
  have hmod : (if negative then signBit + m % signBit else m % signBit) % signBit = m := by
    cases negative
    · rw [if_neg Bool.false_ne_true, Nat.mod_mod, Nat.mod_eq_of_lt h]
    · rw [if_pos rfl, Nat.add_mod_left, Nat.mod_mod, Nat.mod_eq_of_lt h]
  have hlt : (if negative then signBit + m % signBit else m % signBit) < 2 ^ 64 := by
    rw [Nat.mod_eq_of_lt h]
    have htwo : signBit + signBit = 2 ^ 64 := by unfold signBit; norm_num
    split <;> omega
  unfold ofMagnitude magnitude
  rw [UInt64.toNat_ofNat', Nat.mod_eq_of_lt hlt, hmod]

theorem parts_eq (x : Double) : x.parts =
    if x.magnitude / leadingBit = 0 then (x.magnitude % leadingBit, -1074)
    else (x.magnitude % leadingBit + leadingBit, ((x.magnitude / leadingBit : Nat) : Int) - 1075) :=
  rfl

/-- A magnitude made of an exponent and a number of units stands for that many units. The number
may be the next power of two; a number without leading bit needs the least exponent. -/
theorem size_ofMagnitude_units {k u : Nat} (hu : u ≤ 2 * leadingBit)
    (hfull : k = 0 ∨ leadingBit ≤ u) (hfin : k * leadingBit + u < infinityMagnitude) :
    (ofMagnitude false (k * leadingBit + u)).size = u * 2 ^ ((k : ℤ) - 1074) := by
  have hsign : k * leadingBit + u < signBit := by
    unfold infinityMagnitude at hfin
    unfold signBit
    omega
  unfold size
  rw [parts_eq, magnitude_ofMagnitude false hsign]
  rcases Nat.lt_or_ge u leadingBit with hlt | hge
  · have hk : k = 0 := by omega
    subst hk
    rw [Nat.zero_mul, Nat.zero_add, Nat.div_eq_of_lt hlt, Nat.mod_eq_of_lt hlt, if_pos rfl,
      Nat.cast_zero, zero_sub]
  · rcases Nat.lt_or_ge u (2 * leadingBit) with hlt | hge'
    · have hdiv : (k * leadingBit + u) / leadingBit = k + 1 := by
        rw [Nat.div_eq_iff (by decide)]
        unfold leadingBit at *
        omega
      have hmod : (k * leadingBit + u) % leadingBit = u - leadingBit := by
        have := Nat.div_add_mod (k * leadingBit + u) leadingBit
        rw [hdiv] at this
        unfold leadingBit at *
        omega
      rw [hdiv, hmod, if_neg (by omega), Nat.sub_add_cancel hge]
      congr 2
      push_cast
      ring
    · have hu' : u = 2 * leadingBit := by omega
      subst hu'
      have hdiv : (k * leadingBit + 2 * leadingBit) / leadingBit = k + 2 := by
        rw [← Nat.add_mul, Nat.mul_div_cancel _ (by decide)]
      have hmod : (k * leadingBit + 2 * leadingBit) % leadingBit = 0 := by
        rw [← Nat.add_mul, Nat.mul_mod_left]
      rw [hdiv, hmod, if_neg (by omega), Nat.zero_add]
      have hexp : ((k + 2 : ℕ) : ℤ) - 1075 = ((k : ℤ) - 1074) + 1 := by push_cast; ring
      rw [hexp, zpow_add_one₀ (by norm_num)]
      push_cast
      ring

theorem fraction_pos (x : Double) : 0 < x.fraction.2 := by
  unfold fraction
  split
  split
  · exact Nat.one_pos
  · exact Nat.pow_pos (by decide)

/-- The fraction of a double is its size. -/
theorem fraction_eq_size (x : Double) : (x.fraction.1 : ℚ) / x.fraction.2 = x.size := by
  unfold fraction size
  rcases x.parts with ⟨m, q⟩
  dsimp only
  split
  · next hq =>
    obtain ⟨k, rfl⟩ := Int.eq_ofNat_of_zero_le hq
    push_cast
    rw [Int.toNat_natCast, twoTo_cast, zpow_natCast, div_one]
  · next hq =>
    obtain ⟨k, hk⟩ := Int.eq_ofNat_of_zero_le (show 0 ≤ -q by omega)
    have hq' : q = -(k : ℤ) := by omega
    subst hq'
    rw [Int.neg_neg, Int.toNat_natCast, twoTo_cast, zpow_neg, zpow_natCast, div_eq_mul_inv]

/-! ## Units -/

/-- Rounding adds at most one half. -/
theorem divHalfEven_le (n : Nat) {d : Nat} (hd : 0 < d) : 2 * (d * divHalfEven n d) ≤ 2 * n + d := by
  have hdiv := Nat.div_add_mod n d
  have hmod := Nat.mod_lt n hd
  unfold divHalfEven
  dsimp only
  split
  · next h =>
    have hr : d ≤ 2 * (n % d) := by
      simp only [Bool.or_eq_true, Bool.and_eq_true, decide_eq_true_eq] at h
      omega
    rw [Nat.mul_add, Nat.mul_one]
    omega
  · omega

theorem le_divHalfEven {c n d : Nat} (hd : 0 < d) (h : d * c ≤ n) : c ≤ divHalfEven n d := by
  have hdiv : c ≤ n / d := (Nat.le_div_iff_mul_le hd).mpr (by rwa [Nat.mul_comm])
  unfold divHalfEven
  dsimp only
  split
  · omega
  · exact hdiv

/-- The two whole numbers whose quotient is the number of units of `2^q` in a fraction. -/
theorem exists_units (n : Nat) {d : Nat} (hd : 0 < d) (q : Int) :
    ∃ a b : Nat, 0 < b ∧ (a : ℚ) / b = (n : ℚ) / d / 2 ^ q ∧ unitsOf n d q = divHalfEven a b ∧
      fillsUnit n d q = decide (b * leadingBit ≤ a) := by
  unfold unitsOf fillsUnit
  split
  · next hq =>
    obtain ⟨k, rfl⟩ := Int.eq_ofNat_of_zero_le hq
    refine ⟨n, d * twoTo k, Nat.mul_pos hd (Nat.pow_pos (by decide)), ?_, rfl, rfl⟩
    push_cast
    rw [twoTo_cast, zpow_natCast, div_div]
  · next hq =>
    obtain ⟨k, hk⟩ := Int.eq_ofNat_of_zero_le (show 0 ≤ -q by omega)
    have hq' : q = -(k : ℤ) := by omega
    subst hq'
    refine ⟨n * twoTo k, d, hd, ?_, ?_, ?_⟩
    · push_cast
      rw [twoTo_cast, zpow_neg, zpow_natCast, div_inv_eq_mul]
      ring
    · rw [Int.neg_neg, Int.toNat_natCast]
    · rw [Int.neg_neg, Int.toNat_natCast]

theorem unitsOf_le (n : Nat) {d : Nat} (hd : 0 < d) (q : Int) :
    (unitsOf n d q : ℚ) ≤ (n : ℚ) / d / 2 ^ q + 1 / 2 := by
  obtain ⟨a, b, hb, hab, hunits, -⟩ := exists_units n hd q
  have hb' : (0 : ℚ) < b := by exact_mod_cast hb
  have hle : (2 * (b * divHalfEven a b) : ℚ) ≤ 2 * a + b := by exact_mod_cast divHalfEven_le a hb
  rw [hunits, ← hab, ← sub_le_iff_le_add, le_div_iff₀ hb']
  linarith

theorem le_unitsOf {n d : Nat} (hd : 0 < d) {q : Int} (h : (leadingBit : ℚ) * 2 ^ q ≤ n / d) :
    leadingBit ≤ unitsOf n d q := by
  obtain ⟨a, b, hb, hab, hunits, -⟩ := exists_units n hd q
  have hb' : (0 : ℚ) < b := by exact_mod_cast hb
  rw [← le_div_iff₀ (by positivity), ← hab, le_div_iff₀ hb'] at h
  rw [hunits]
  refine le_divHalfEven hb ?_
  rw [Nat.mul_comm]
  exact_mod_cast h

theorem fillsUnit_iff {n d : Nat} (hd : 0 < d) (q : Int) :
    fillsUnit n d q = true ↔ (leadingBit : ℚ) * 2 ^ q ≤ n / d := by
  obtain ⟨a, b, hb, hab, -, hfills⟩ := exists_units n hd q
  have hb' : (0 : ℚ) < b := by exact_mod_cast hb
  rw [hfills, decide_eq_true_eq, ← le_div_iff₀ (by positivity), ← hab, le_div_iff₀ hb',
    Nat.mul_comm]
  exact_mod_cast Iff.rfl

/-! ## The exponent of the unit -/

/-- The exponent that a fraction would have its units in, were there no least one. -/
def freeExponent (n d : Nat) : Int :=
  let top : Int := (Nat.log2 n : Int) - (Nat.log2 d : Int) - 52
  if fillsUnit n d top then top else top - 1

/-- The exponent of the units that a fraction is rounded to. -/
def unitExponent (n d : Nat) : Int := max (freeExponent n d) (-1074)

theorem nearestMagnitude_eq {n : Nat} (hn : n ≠ 0) (d : Nat) : nearestMagnitude n d =
    min ((unitExponent n d + 1074).toNat * leadingBit + unitsOf n d (unitExponent n d))
      infinityMagnitude := by
  unfold nearestMagnitude
  rw [if_neg hn]
  rfl

/-- The binary logarithms of two numbers place their quotient between two powers of two. -/
theorem log2_div_bounds {n d : Nat} (hn : n ≠ 0) (hd : d ≠ 0) :
    (2 : ℚ) ^ ((Nat.log2 n : ℤ) - Nat.log2 d - 1) ≤ n / d ∧
      (n : ℚ) / d < 2 ^ ((Nat.log2 n : ℤ) - Nat.log2 d + 1) := by
  have hlow {a : Nat} (ha : a ≠ 0) : (2 : ℚ) ^ (Nat.log2 a : ℤ) ≤ a := by
    rw [zpow_natCast]
    exact_mod_cast Nat.log2_self_le ha
  have hhigh (a : Nat) : (a : ℚ) < 2 ^ ((Nat.log2 a : ℤ) + 1) := by
    have : a < 2 ^ (Nat.log2 a + 1) := Nat.lt_log2_self
    rw [← Nat.cast_succ, zpow_natCast]
    exact_mod_cast this
  have hd' : (0 : ℚ) < d := by exact_mod_cast Nat.pos_of_ne_zero hd
  have htwo : (2 : ℚ) ≠ 0 := by norm_num
  constructor
  · have hexp : (Nat.log2 n : ℤ) = ((Nat.log2 n : ℤ) - Nat.log2 d - 1) + (Nat.log2 d + 1) := by ring
    have hle := hlow hn
    rw [hexp, zpow_add₀ htwo] at hle
    rw [le_div_iff₀ hd']
    exact le_trans (mul_le_mul_of_nonneg_left (hhigh d).le (by positivity)) hle
  · have hexp : (Nat.log2 n : ℤ) + 1 = ((Nat.log2 n : ℤ) - Nat.log2 d + 1) + Nat.log2 d := by ring
    have hlt := hhigh n
    rw [hexp, zpow_add₀ htwo] at hlt
    rw [div_lt_iff₀ hd']
    exact lt_of_lt_of_le hlt (mul_le_mul_of_nonneg_left (hlow hd) (by positivity))

theorem freeExponent_bounds {n d : Nat} (hn : n ≠ 0) (hd : d ≠ 0) :
    (2 : ℚ) ^ (freeExponent n d + 52) ≤ n / d ∧ (n : ℚ) / d < 2 ^ (freeExponent n d + 53) := by
  obtain ⟨hlow, hhigh⟩ := log2_div_bounds hn hd
  have htwo : (2 : ℚ) ≠ 0 := by norm_num
  unfold freeExponent
  generalize htop : (Nat.log2 n : ℤ) - Nat.log2 d - 52 = top
  have hfills := fillsUnit_iff (n := n) (Nat.pos_of_ne_zero hd) top
  rw [leadingBit_cast, ← zpow_natCast, ← zpow_add₀ htwo] at hfills
  dsimp only
  split
  · next hfull =>
    refine ⟨?_, ?_⟩
    · rw [add_comm]
      exact hfills.mp hfull
    · rwa [show top + 53 = (Nat.log2 n : ℤ) - Nat.log2 d + 1 by omega]
  · next hfull =>
    refine ⟨?_, ?_⟩
    · rwa [show top - 1 + 52 = (Nat.log2 n : ℤ) - Nat.log2 d - 1 by omega]
    · rw [show top - 1 + 53 = (52 : ℕ) + top by push_cast; omega]
      refine lt_of_not_ge ?_
      intro hge
      exact hfull (hfills.mpr hge)

theorem lt_of_unitExponent {n d : Nat} (hn : n ≠ 0) (hd : d ≠ 0) :
    (n : ℚ) / d < 2 ^ (unitExponent n d + 53) := by
  refine lt_of_lt_of_le (freeExponent_bounds hn hd).2 (zpow_le_zpow_right₀ (by norm_num) ?_)
  unfold unitExponent
  omega

/-- Above the least exponent the units fill the significand. -/
theorem le_of_unitExponent {n d : Nat} (hn : n ≠ 0) (hd : d ≠ 0)
    (hq : -1074 < unitExponent n d) : (2 : ℚ) ^ (unitExponent n d + 52) ≤ n / d := by
  have hfree : unitExponent n d = freeExponent n d := by
    unfold unitExponent at hq ⊢
    omega
  rw [hfree]
  exact (freeExponent_bounds hn hd).1

theorem unitsOf_unitExponent_le {n d : Nat} (hn : n ≠ 0) (hd : d ≠ 0) :
    unitsOf n d (unitExponent n d) ≤ 2 * leadingBit := by
  have hle := unitsOf_le n (Nat.pos_of_ne_zero hd) (unitExponent n d)
  have hlt := lt_of_unitExponent hn hd
  rw [add_comm, zpow_add₀ (by norm_num), ← div_lt_iff₀ (by positivity), zpow_ofNat] at hlt
  have hunits : (unitsOf n d (unitExponent n d) : ℚ) < (2 * leadingBit + 1 : ℕ) := by
    push_cast
    rw [leadingBit_cast]
    linarith
  exact Nat.lt_succ_iff.mp (by exact_mod_cast hunits)

/-! ## Rounding stays finite and near -/

theorem unitExponent_le {n d : Nat} (hn : n ≠ 0) (hd : d ≠ 0) (h : (n : ℚ) / d < overflow) :
    unitExponent n d ≤ 971 := by
  by_contra hgt
  have hle := le_of_unitExponent hn hd (by omega)
  have hpow : (2 : ℚ) ^ (1024 : ℤ) ≤ 2 ^ (unitExponent n d + 52) :=
    zpow_le_zpow_right₀ (by norm_num) (by omega)
  have hover : overflow < 2 ^ (1024 : ℤ) := by
    unfold overflow
    rw [show (1024 : ℤ) = ((54 + 970 : ℕ) : ℤ) from rfl, zpow_natCast, pow_add]
    exact mul_lt_mul_of_pos_right (sub_lt_self _ one_pos) (by positivity)
  exact absurd (lt_of_le_of_lt (le_trans hpow hle) h) (not_lt.mpr hover.le)

/-- Below the overflow the exponent and the units together stay below infinity. -/
theorem units_lt_infinity {n d : Nat} (hn : n ≠ 0) (hd : d ≠ 0) (h : (n : ℚ) / d < overflow) :
    (unitExponent n d + 1074).toNat * leadingBit + unitsOf n d (unitExponent n d)
      < infinityMagnitude := by
  have hq := unitExponent_le hn hd h
  have hunits := unitsOf_unitExponent_le hn hd
  have hinfinity : infinityMagnitude = 2047 * leadingBit := rfl
  have hpos : 0 < leadingBit := by decide
  rw [hinfinity]
  rcases Int.lt_or_eq_of_le hq with hlt | heq
  · have hk : (unitExponent n d + 1074).toNat ≤ 2044 := by omega
    have := Nat.mul_le_mul_right leadingBit hk
    omega
  · have hle := unitsOf_le n (Nat.pos_of_ne_zero hd) 971
    have hlast : (n : ℚ) / d / 2 ^ (971 : ℤ) < 2 ^ 53 - 1 / 2 := by
      rw [div_lt_iff₀ (by positivity)]
      refine lt_of_lt_of_eq h ?_
      rw [mul_two_pow_971]
      unfold overflow
      congr 1
      norm_num
    have hlt : (unitsOf n d 971 : ℚ) < (2 * leadingBit : ℕ) := by
      push_cast
      rw [leadingBit_cast]
      linarith
    rw [heq] at hunits ⊢
    have hlt' : unitsOf n d 971 < 2 * leadingBit := by exact_mod_cast hlt
    have hk : ((971 : Int) + 1074).toNat = 2045 := rfl
    rw [hk]
    omega

/-- A fraction below the overflow is rounded to a finite double. -/
theorem nearestMagnitude_lt {n d : Nat} (hd : d ≠ 0) (h : (n : ℚ) / d < overflow) :
    nearestMagnitude n d < infinityMagnitude := by
  by_cases hn : n = 0
  · unfold nearestMagnitude
    rw [if_pos hn]
    decide
  · rw [nearestMagnitude_eq hn]
    exact Nat.lt_of_le_of_lt (Nat.min_le_left _ _) (units_lt_infinity hn hd h)

/-- A fraction from one on grows by at most one part in `2^53` when it is rounded. -/
theorem size_nearest_le {n d : Nat} (hd : d ≠ 0) (hdn : d ≤ n) (h : (n : ℚ) / d < overflow) :
    (ofFraction false n d).size ≤ n / d * (1 + 1 / 2 ^ 53) := by
  have hn : n ≠ 0 := by omega
  have hd' : (0 : ℚ) < d := by exact_mod_cast Nat.pos_of_ne_zero hd
  have hfin := units_lt_infinity hn hd h
  have hone : (1 : ℚ) ≤ n / d := by
    rw [le_div_iff₀ hd', one_mul]
    exact_mod_cast hdn
  have hq : -1074 < unitExponent n d := by
    by_contra hle
    have hlt := lt_of_lt_of_le (lt_of_unitExponent hn hd)
      (zpow_le_zpow_right₀ (show (1 : ℚ) ≤ 2 by norm_num) (show unitExponent n d + 53 ≤ 0 by omega))
    rw [zpow_zero] at hlt
    exact absurd hone (not_le.mpr hlt)
  have hfull := le_of_unitExponent hn hd hq
  have hunits := unitsOf_le n (Nat.pos_of_ne_zero hd) (unitExponent n d)
  unfold ofFraction
  rw [nearestMagnitude_eq hn, Nat.min_eq_left hfin.le,
    size_ofMagnitude_units (unitsOf_unitExponent_le hn hd) (Or.inr ?_) hfin]
  · generalize unitExponent n d = q at *
    rw [Int.toNat_of_nonneg (by omega), add_sub_cancel_right]
    have hpow : (0 : ℚ) < 2 ^ q := by positivity
    have hhalf : (2 : ℚ) ^ q / 2 ≤ n / d * (1 / 2 ^ 53) := by
      rw [zpow_add₀ (by norm_num)] at hfull
      norm_num at hfull ⊢
      linarith
    calc (unitsOf n d q : ℚ) * 2 ^ q
        ≤ ((n : ℚ) / d / 2 ^ q + 1 / 2) * 2 ^ q := mul_le_mul_of_nonneg_right hunits hpow.le
      _ = n / d + 2 ^ q / 2 := by field_simp
      _ ≤ n / d * (1 + 1 / 2 ^ 53) := by rw [mul_add, mul_one]; exact add_le_add_right hhalf _
  · refine le_unitsOf (Nat.pos_of_ne_zero hd) ?_
    rw [zpow_add₀ (by norm_num), mul_comm] at hfull
    rw [leadingBit_cast]
    exact_mod_cast hfull

end DocQuery.Double
