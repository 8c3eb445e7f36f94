/-
  Binary64 numbers, held as their 64 bits: sign, exponent field, fraction field. Order and
  equality are read off the bits, so they can be computed inside a proof.
-/

namespace DocQuery

/-- Powers of two. -/
def twoTo (k : Nat) : Nat := Nat.pow 2 k

/-- Powers of ten. -/
def tenTo (k : Nat) : Nat := Nat.pow 10 k

/-- A binary64 number. -/
structure Double where
  bits : UInt64
deriving DecidableEq, Inhabited

namespace Double

/-- The place of the sign bit. -/
def signBit : Nat := 0x8000000000000000

/-- The bit that the significand of a number has above its fraction field. -/
def leadingBit : Nat := 0x10000000000000

/-- The bits without the sign. -/
def magnitude (x : Double) : Nat := x.bits.toNat % signBit

def isNegative (x : Double) : Bool := signBit ≤ x.bits.toNat

/-- The magnitude of the infinities; above it lie the NaNs. -/
def infinityMagnitude : Nat := 0x7ff0000000000000

def isNaN (x : Double) : Bool := infinityMagnitude < x.magnitude

def isInfinite (x : Double) : Bool := x.magnitude = infinityMagnitude

def isFinite (x : Double) : Bool := x.magnitude < infinityMagnitude

/-- A number from its sign and magnitude. -/
def ofMagnitude (negative : Bool) (m : Nat) : Double :=
  ⟨UInt64.ofNat (if negative then signBit + m % signBit else m % signBit)⟩

def nan : Double := ⟨0x7ff8000000000000⟩

def infinity (negative : Bool) : Double := ofMagnitude negative infinityMagnitude

def zero (negative : Bool) : Double := ofMagnitude negative 0

def neg (x : Double) : Double := ofMagnitude (!x.isNegative) x.magnitude

/-- The place of a number in the order; both zeros have the same. -/
def rank (x : Double) : Int := if x.isNegative then -(x.magnitude : Int) else x.magnitude

/-- Numeric equality: a NaN equals nothing, and the two zeros are equal. -/
def eq (x y : Double) : Bool := !x.isNaN && !y.isNaN && x.rank == y.rank

/-- Numeric order; a NaN has no place in it. -/
def compare? (x y : Double) : Option Ordering :=
  if x.isNaN || y.isNaN then none else some (compare x.rank y.rank)

/-- A finite number as `m * 2^q`, sign aside. -/
def parts (x : Double) : Nat × Int :=
  let e : Nat := x.magnitude / leadingBit
  let f : Nat := x.magnitude % leadingBit
  if e = 0 then (f, -1074) else (f + leadingBit, (e : Int) - 1075)

/-- The absolute value of a finite number as a fraction. -/
def fraction (x : Double) : Nat × Nat :=
  let (m, q) := x.parts
  if 0 ≤ q then (m * twoTo q.toNat, 1) else (m, twoTo (-q).toNat)

theorem eq_self_iff (x : Double) : x.eq x = true ↔ x.isNaN = false := by simp [eq]

theorem eq_comm (x y : Double) : x.eq y = y.eq x := by
  simp only [eq, Bool.beq_comm (a := x.rank)]
  cases x.isNaN <;> cases y.isNaN <;> rfl

theorem eq_trans {x y z : Double} (h : x.eq y = true) (h' : y.eq z = true) : x.eq z = true := by
  simp only [eq, Bool.and_eq_true, beq_iff_eq] at h h' ⊢
  exact ⟨⟨h.1.1, h'.1.2⟩, h.2.trans h'.2⟩

end Double
end DocQuery
