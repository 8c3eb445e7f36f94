import DocQuery.Proofs.Rounding
import DocQuery.Json.Number

/-
  When a word times a power of ten is read as a double. Downwards always, as long as the steps
  suffice; upwards if the product stays below the overflow by the two roundings of its factors.
-/

namespace DocQuery.Json
open Double

theorem isInfinite_ofFraction (negative : Bool) {n d : Nat} (hd : d ≠ 0)
    (h : (n : ℚ) / d < overflow) : (ofFraction negative n d).isInfinite = false := by
  have hlt := nearestMagnitude_lt hd h
  have hsign : infinityMagnitude < signBit := by decide
  unfold isInfinite ofFraction
  rw [magnitude_ofMagnitude negative (by omega)]
  exact decide_eq_false (by omega)

/-- The rounded product of two doubles is infinite only if their product overflows. -/
theorem isInfinite_mulRounded {x y : Double} (h : x.size * y.size < overflow) :
    (x.mulRounded y).isInfinite = false := by
  have hx := fraction_pos x
  have hy := fraction_pos y
  rw [← fraction_eq_size, ← fraction_eq_size, div_mul_div_comm] at h
  refine isInfinite_ofFraction false (Nat.mul_pos hx hy).ne' ?_
  push_cast
  exact h

/-! ## Powers of ten -/

theorem exists_scaled?_of_neg (fuel : Nat) (x : Double) {e : Int} (he : e < 0)
    (hfuel : -(308 * fuel : Int) ≤ e) : ∃ y, scaled? fuel x e = some y := by
  induction fuel generalizing x e with
  | zero => omega
  | succ fuel ih =>
    unfold scaled?
    split
    · rw [if_neg (by omega)]
      exact ⟨_, rfl⟩
    · split
      · exact ⟨x, rfl⟩
      · rw [if_neg (by omega)]
        exact ih _ (by omega) (by push_cast at hfuel; omega)

/-- What two roundings can add to a product. -/
def roundings : ℚ := (1 + 1 / 2 ^ 53) * (1 + 1 / 2 ^ 53)

theorem one_le_roundings : 1 ≤ roundings := by
  unfold roundings
  norm_num

theorem lt_of_mul_roundings {a : ℚ} (ha : 0 ≤ a) (h : a * roundings < overflow) : a < overflow :=
  lt_of_le_of_lt (le_mul_of_one_le_right ha one_le_roundings) h

theorem size_ofNat_le {n : Nat} (hn : 0 < n) (h : (n : ℚ) < overflow) :
    (Double.ofInt n).size ≤ n * (1 + 1 / 2 ^ 53) := by
  have hle := size_nearest_le (n := n) one_ne_zero hn (by rwa [Nat.cast_one, div_one])
  rw [Nat.cast_one, div_one] at hle
  exact hle

theorem overflow_lt_tenTo : overflow < 10 ^ 309 := by
  have hten : twoTo 1024 ≤ tenTo 309 := by decide +kernel
  have hten' : (twoTo 1024 : ℚ) ≤ tenTo 309 := by exact_mod_cast hten
  rw [twoTo_cast, tenTo_cast, show 1024 = 54 + 970 from rfl, pow_add] at hten'
  refine lt_of_lt_of_le ?_ hten'
  exact mul_lt_mul_of_pos_right (sub_lt_self _ one_pos) (by positivity)

theorem exists_scaled?_of_nonneg {n k : Nat} (hn : 0 < n)
    (h : (n * 10 ^ k : ℚ) * roundings < overflow) :
    ∃ y, scaled? 4 (Double.ofInt n) k = some y := by
  have hn' : (1 : ℚ) ≤ n := by exact_mod_cast hn
  have hpow : (1 : ℚ) ≤ 10 ^ k := one_le_pow₀ (by norm_num)
  have hlt := lt_of_mul_roundings (by positivity) h
  have hnlt : (n : ℚ) < overflow := lt_of_le_of_lt (le_mul_of_one_le_right (by positivity) hpow) hlt
  have hplt : ((tenTo k : Nat) : ℚ) < overflow := by
    rw [tenTo_cast]
    exact lt_of_le_of_lt (le_mul_of_one_le_left (by positivity) hn') hlt
  have hk : k ≤ 308 := by
    by_contra hgt
    have hmono : (10 : ℚ) ^ 309 ≤ 10 ^ k := pow_le_pow_right₀ (by norm_num) (by omega)
    rw [tenTo_cast] at hplt
    exact absurd (lt_of_le_of_lt hmono hplt) (not_lt.mpr overflow_lt_tenTo.le)
  have hfinite : ((Double.ofInt n).mulRounded (Double.ofInt (tenTo k))).isInfinite = false := by
    refine isInfinite_mulRounded (lt_of_le_of_lt ?_ h)
    have hsize := size_ofNat_le hn hnlt
    have hsize' := size_ofNat_le (n := tenTo k) (Nat.pow_pos (by decide)) hplt
    have hpos : 0 ≤ (Double.ofInt (tenTo k)).size := by unfold size; positivity
    rw [tenTo_cast] at hsize'
    calc (Double.ofInt n).size * (Double.ofInt (tenTo k)).size
        ≤ (n * (1 + 1 / 2 ^ 53)) * (10 ^ k * (1 + 1 / 2 ^ 53)) :=
          mul_le_mul hsize hsize' hpos (by positivity)
      _ = n * 10 ^ k * roundings := by unfold roundings; ring
  unfold scaled?
  rw [if_pos (by omega), if_pos (by omega)]
  dsimp only
  rw [Int.natAbs_natCast, hfinite, if_neg Bool.false_ne_true]
  exact ⟨_, rfl⟩

end DocQuery.Json
