import DocQuery.ExtendedJson.Scalar
import DocQuery.ExtendedJson.Writer
import DocQuery.Proofs.Digits

/-
  The values that JSON has no form for, written as objects and read back: bytes in base 64,
  identifiers, integers in text, points in time.
-/

namespace DocQuery

namespace Encoding

/-! ## Base 64 -/

theorem base64Value?_base64Char {n : Nat} (h : n < 64) : base64Value? (base64Char n) = some n := by
  revert n
  decide

theorem base64Char_ne {n : Nat} (h : n < 64) : base64Char n ≠ '=' := by
  revert n
  decide

/-- A group of four characters without filling. -/
theorem ofBase64?_group {p q r s : Nat} (hp : p < 64) (hq : q < 64) (hr : r < 64) (hs : s < 64)
    (rest : List Char) :
    ofBase64? (base64Char p :: base64Char q :: base64Char r :: base64Char s :: rest) =
      (ofBase64? rest).map fun bytes =>
        let n := ((p * 64 + q) * 64 + r) * 64 + s
        UInt8.ofNat (n / 65536) :: UInt8.ofNat (n / 256 % 256) :: UInt8.ofNat (n % 256) :: bytes := by
  have hfill := base64Char_ne hs
  rw [ofBase64?.eq_def]
  split
  · next he => cases he
  · next he =>
    simp only [List.cons.injEq] at he
    exact absurd he.2.2.2.1 hfill
  · next he =>
    simp only [List.cons.injEq] at he
    exact absurd he.2.2.2.1 hfill
  · next he =>
    simp only [List.cons.injEq] at he
    obtain ⟨rfl, rfl, rfl, rfl, rfl⟩ := he
    rw [base64Value?_base64Char hp, base64Value?_base64Char hq, base64Value?_base64Char hr,
      base64Value?_base64Char hs]
    cases ofBase64? rest <;> rfl
  · next hne => exact absurd rfl (hne _ _ _ _ _)

/-- One byte in two characters. -/
theorem ofBase64?_one {p q : Nat} (hp : p < 64) (hq : q < 64) (hzero : q % 16 = 0) :
    ofBase64? [base64Char p, base64Char q, '=', '='] = some [UInt8.ofNat (p * 4 + q / 16)] := by
  rw [ofBase64?, base64Value?_base64Char hp, base64Value?_base64Char hq]
  exact if_pos hzero

/-- Two bytes in three characters. -/
theorem ofBase64?_two {p q r : Nat} (hp : p < 64) (hq : q < 64) (hr : r < 64) (hzero : r % 4 = 0) :
    ofBase64? [base64Char p, base64Char q, base64Char r, '='] =
      some [UInt8.ofNat (((p * 64 + q) * 16 + r / 4) / 256),
        UInt8.ofNat (((p * 64 + q) * 16 + r / 4) % 256)] := by
  rw [ofBase64?.eq_def]
  split
  · next he => cases he
  · next he =>
    simp only [List.cons.injEq] at he
    exact absurd he.2.2.1 (base64Char_ne hr)
  · next he =>
    simp only [List.cons.injEq] at he
    obtain ⟨rfl, rfl, rfl, -⟩ := he
    rw [base64Value?_base64Char hp, base64Value?_base64Char hq, base64Value?_base64Char hr]
    exact if_pos hzero
  · next hne he =>
    simp only [List.cons.injEq] at he
    obtain ⟨rfl, rfl, rfl, rfl, rfl⟩ := he
    exact (hne rfl rfl).elim
  · next hne => exact absurd rfl (hne _ _ _ _ _)

theorem ofNat_eq {b : UInt8} {n : Nat} (h : n = b.toNat) : UInt8.ofNat n = b := by
  rw [h]
  exact UInt8.ofNat_toNat

theorem ofBase64?_toBase64 (bytes : List UInt8) : ofBase64? (toBase64 bytes) = some bytes := by
  induction bytes using toBase64.induct with
  | case1 => rfl
  | case2 a =>
    have ha := a.toNat_lt
    rw [toBase64, ofBase64?_one (by omega) (by omega) (by omega), ofNat_eq (b := a) (by omega)]
  | case3 a b =>
    have ha := a.toNat_lt
    have hb := b.toNat_lt
    rw [toBase64, ofBase64?_two (by omega) (by omega) (by omega) (by omega),
      ofNat_eq (b := a) (by omega), ofNat_eq (b := b) (by omega)]
  | case4 a b c rest ih =>
    have ha := a.toNat_lt
    have hb := b.toNat_lt
    have hc := c.toNat_lt
    rw [toBase64, ofBase64?_group (by omega) (by omega) (by omega) (by omega), ih]
    dsimp only [Option.map_some]
    rw [ofNat_eq (b := a) (by omega), ofNat_eq (b := b) (by omega), ofNat_eq (b := c) (by omega)]

/-! ## Bytes in hexadecimal -/

theorem ofHex?_hexByte (b : UInt8) : ofHex? (hexByte b) = some [b] := by
  have h := ofHex?_toHex [b]
  unfold toHex at h
  rwa [List.flatMap_cons, List.flatMap_nil, List.append_nil] at h

end Encoding

namespace ExtendedJson

/-! ## Identifiers and integers -/

theorem objectId?_hex (id : ObjectId) : objectId? id.hex = some id := by
  unfold objectId? ObjectId.hex
  rw [String.toList_ofList, Encoding.ofHex?_toHex]
  exact dif_pos id.size_eq

theorem splitSign_toDigits (n : Nat) :
    splitSign (Nat.toDigits 10 n) = (false, Nat.toDigits 10 n) := by
  have hall : ∀ c ∈ Nat.toDigits 10 n, c.isDigit = true := fun c => Json.isDigit_of_mem_toDigits
  unfold splitSign
  split
  · next h => exact absurd (hall '-' (by rw [h]; exact List.mem_cons_self)) (by decide)
  · next h => exact absurd (hall '+' (by rw [h]; exact List.mem_cons_self)) (by decide)
  · rfl

theorem splitSign_printInt (n : Int) :
    splitSign (Json.printInt n) = (decide (n < 0), Nat.toDigits 10 n.natAbs) := by
  unfold Json.printInt
  split
  · next hneg => rw [decide_eq_true hneg]; rfl
  · next hpos => rw [decide_eq_false hpos, splitSign_toDigits]

theorem integer?_decimalText (n : Int) : integer? (Value.decimalText n) = some n := by
  have hall : (Nat.toDigits 10 n.natAbs).all Char.isDigit = true :=
    List.all_eq_true.mpr fun c hc => Json.isDigit_of_mem_toDigits hc
  unfold integer? Value.decimalText
  rw [String.toList_ofList, splitSign_printInt]
  simp only [hall, Json.decimalValue_toDigits]
  rw [if_neg (by simp)]
  congr 1
  split
  · next h => have := of_decide_eq_true h; omega
  · next h => have : ¬n < 0 := by simpa using h
              omega

theorem int64?_toInt (n : Int64) : int64? n.toInt = some n := by
  have hlow := n.le_toInt
  have hhigh := n.toInt_lt
  unfold int64?
  rw [if_pos (by simp only [Bool.and_eq_true, decide_eq_true_eq]; omega), Int64.ofInt_toInt]

end ExtendedJson
end DocQuery
