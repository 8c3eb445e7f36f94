import DocQuery.Config

/-
  References to the environment in the path of a log file: `$ENV{NAME}` stands for the value of the
  variable `NAME`. A reference that is not complete, and one to a variable that is not set, stands
  for itself.
-/

namespace DocQuery.Log.Reference

/-- What a reference starts with. -/
def opening : List Char := "$ENV\x7b".toList

/-- Characters in the name of a variable; outside ASCII, letters and digits are not told from
others. -/
def isNameChar (c : Char) : Bool := c.isAlphanum || c = '_' || c = '.' || 0x80 ≤ c.toNat

/-- The name in a reference that starts here. -/
def nameAt? (cs : List Char) : Option (List Char) :=
  match opening.isPrefixOf? cs with
  | none => none
  | some rest =>
    let name := rest.takeWhile isNameChar
    if name.isEmpty || name.head? = some '.' then none
    else if (rest.dropWhile isNameChar).head? = some '\x7d' then some name
    else none

/-- The names in all references, in order. -/
def names : List Char → List (List Char)
  | [] => []
  | c :: cs => (nameAt? (c :: cs)).toList ++ names cs

/-- A reference as it is written. -/
def written (name : List Char) : List Char := opening ++ name ++ ['\x7d']

/-- Puts `new` in the place of `old` wherever it stands. The number counts what is left of an `old`
that has been replaced. -/
def replaceAll (old new : List Char) : Nat → List Char → List Char
  | _, [] => []
  | left + 1, _ :: cs => replaceAll old new left cs
  | 0, c :: cs =>
    if old.isPrefixOf (c :: cs) then new ++ replaceAll old new (old.length - 1) cs
    else c :: replaceAll old new 0 cs

/-- Replaces the references in a text, one name after the other. A reference that a value brings
along is replaced with those that are still to come. -/
def expand (env : Environment) (text : String) : String :=
  let step (out name : List Char) : List Char :=
    match env.get? (String.ofList name) with
    | some value => replaceAll (written name) value.toList 0 out
    | none => out
  String.ofList ((names text.toList).foldl step text.toList)

theorem expand_eq_self (env : Environment) (text : String) (h : names text.toList = []) :
    expand env text = text := by simp [expand, h]

end DocQuery.Log.Reference
