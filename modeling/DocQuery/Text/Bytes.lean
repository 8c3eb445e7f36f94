/-
  Bytes that are shown as a text. They are read as UTF-8, and a piece of them that is no character
  is replaced by U+FFFD, so that different bytes may be shown alike. The bytes of a text show the
  text (`shown_bytes`).
-/

namespace DocQuery.Text

/-- The character that bytes begin with. -/
def leadingChar? (bs : List UInt8) : Option Char := bs.toByteArray.utf8DecodeChar? 0

/-- How many bytes at the beginning are replaced as one piece where no character begins: as many as
some character begins with. -/
def brokenLength (bs : List UInt8) : Nat :=
  let begins (n missing : Nat) : Bool :=
    (leadingChar? (bs.take n ++ List.replicate missing 0x80)).isSome
  if begins 3 1 then 3 else if begins 2 1 || begins 2 2 then 2 else 1

/-- The characters that bytes are read as, with none for a piece that is no character. A number of
bytes at the beginning has been read already. -/
def characters : (done : Nat) → List UInt8 → List (Option Char)
  | _, [] => []
  | done + 1, _ :: rest => characters done rest
  | 0, b :: rest =>
    match leadingChar? (b :: rest) with
    | some c => some c :: characters (c.utf8Size - 1) rest
    | none => none :: characters (brokenLength (b :: rest) - 1) rest

/-- The text that bytes are shown as. -/
def shown (bs : List UInt8) : String :=
  String.ofList ((characters 0 bs).map fun c => c.getD '\uFFFD')

/-- The bytes of a text. -/
def bytes (s : String) : List UInt8 := s.toList.flatMap String.utf8EncodeChar

theorem leadingChar?_utf8EncodeChar (c : Char) (rest : List UInt8) :
    leadingChar? (String.utf8EncodeChar c ++ rest) = some c := by
  unfold leadingChar?
  rw [List.toByteArray_append]
  exact ByteArray.utf8DecodeChar?_utf8EncodeChar_append

theorem characters_skip (bs rest : List UInt8) :
    characters bs.length (bs ++ rest) = characters 0 rest := by
  induction bs with
  | nil => rfl
  | cons b bs ih => exact ih

theorem characters_utf8EncodeChar (c : Char) (rest : List UInt8) :
    characters 0 (String.utf8EncodeChar c ++ rest) = some c :: characters 0 rest := by
  have hlength := String.length_utf8EncodeChar c
  have hlead := leadingChar?_utf8EncodeChar c rest
  cases hbs : String.utf8EncodeChar c with
  | nil =>
    rw [hbs] at hlength
    exact absurd hlength (Nat.ne_of_lt c.utf8Size_pos)
  | cons b bs =>
    rw [hbs] at hlength hlead
    have hsize : c.utf8Size - 1 = bs.length := by
      rw [← hlength, List.length_cons, Nat.add_sub_cancel]
    rw [List.cons_append] at hlead ⊢
    rw [characters, hlead]
    dsimp only
    rw [hsize, characters_skip]

/-- The bytes of a text are read as its characters. -/
theorem characters_bytes (s : String) : characters 0 (bytes s) = s.toList.map some := by
  unfold bytes
  induction s.toList with
  | nil => rfl
  | cons c cs ih => rw [List.flatMap_cons, characters_utf8EncodeChar, ih, List.map_cons]

/-- A text is shown by its bytes. -/
theorem shown_bytes (s : String) : shown (bytes s) = s := by
  unfold shown
  rw [characters_bytes, List.map_map]
  have hid : (fun c : Option Char => c.getD '\uFFFD') ∘ some = id := rfl
  rw [hid, List.map_id, String.ofList_toList]

/-- Different bytes may be shown alike. -/
example : shown [0xFF] = shown [0xFE] := by decide

end DocQuery.Text
