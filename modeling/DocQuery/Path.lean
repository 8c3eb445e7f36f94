import DocQuery.Text.Bytes

/-
  Paths of files. A name is any bytes that a file system allows, most often those of a text. A path
  is shown as the text that its bytes are read as, so only paths of texts are told apart by how they
  are shown.
-/

namespace DocQuery

/-- The name of an entry of a directory: a text, or bytes that are none. -/
inductive FileName where
  | text (s : String)
  | bytes (bs : List UInt8) (broken : none ∈ Text.characters 0 bs)
deriving DecidableEq

instance : Coe String FileName := ⟨.text⟩

namespace FileName

def toBytes : FileName → List UInt8
  | text s => Text.bytes s
  | bytes bs _ => bs

/-- How many bytes a name has. -/
def byteSize (name : FileName) : Nat := name.toBytes.length

def hasNul (name : FileName) : Bool := name.toBytes.contains 0

/-- The text that a name is shown as. -/
def shown (name : FileName) : String := Text.shown name.toBytes

@[simp]
theorem shown_text (s : String) : (text s).shown = s := Text.shown_bytes s

/-- A name as a file system has it: not empty, and without a slash. -/
def Proper : FileName → Prop
  | text s => s ≠ "" ∧ '/' ∉ s.toList
  | bytes bs _ => 0x2F ∉ bs

instance : (name : FileName) → Decidable name.Proper
  | text s => inferInstanceAs (Decidable (s ≠ "" ∧ '/' ∉ s.toList))
  | bytes bs _ => inferInstanceAs (Decidable (0x2F ∉ bs))

end FileName

/-- The names from the root down to an entry. -/
abbrev Path := List FileName

namespace Path

/-- A path as a file system has it. -/
def Proper (p : Path) : Prop := ∀ name ∈ p, name.Proper

theorem proper_nil : Proper [] := fun _ hname => absurd hname List.not_mem_nil

/-- The text that an absolute path is shown as. -/
def text (p : Path) : String :=
  if p.isEmpty then "/" else String.join (p.map fun name => "/" ++ name.shown)

/-- How many bytes an absolute path has. -/
def byteSize (p : Path) : Nat :=
  if p.isEmpty then 1 else p.foldr (fun name size => 1 + name.byteSize + size) 0

end Path
end DocQuery
