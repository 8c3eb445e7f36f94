import DocQuery.Keyed

/-
  Configuration documents: the values of the TOML format, and how headers and assignments build up
  a document. A table may be opened once by a header. Dotted keys pass through tables that no header
  has opened, and write into tables that dotted keys have made.
-/

namespace DocQuery

/-- A value. The text of a number with a fraction or of a date is kept as it stands. -/
inductive Toml where
  | string (s : String)
  | integer (n : Int)
  | float (text : String)
  | boolean (b : Bool)
  | dateTime (text : String)
  | array (items : List Toml)
  | table (entries : List (String × Toml))

namespace Toml

/-- How a table came to be. -/
inductive Origin where
  /-- As the parent of a table with a header. -/
  | parent
  | header
  | dotted
deriving DecidableEq

/-- A document under construction: values are closed, tables can still grow. -/
inductive Node where
  | value (v : Toml)
  | table (origin : Origin) (entries : List (String × Node))
  /-- The elements of an array of tables; only the last one can grow. -/
  | tables (elements : List (List (String × Node)))

abbrev Entries := Keyed String Node

/-- Changes the table that a header's names lead to, making the tables on the way. -/
def withTable (change : Entries → Option Entries) : List String → Entries → Option Entries
  | [], es => change es
  | name :: rest, es =>
    match Keyed.get? es name with
    | none => (withTable change rest []).map fun sub => Keyed.put es name (.table .parent sub)
    | some (.table origin sub) =>
      (withTable change rest sub).map fun sub => Keyed.put es name (.table origin sub)
    | some (.tables elements) =>
      match elements.getLast? with
      | none => none
      | some last => (withTable change rest last).map fun last =>
          Keyed.put es name (.tables (elements.dropLast ++ [last]))
    | some (.value _) => none

/-- Opens the table of a header. -/
def openTable (name : String) (es : Entries) : Option Entries :=
  match Keyed.get? es name with
  | none => some (Keyed.put es name (.table .header []))
  | some (.table .parent sub) => some (Keyed.put es name (.table .header sub))
  | _ => none

/-- Adds an element to an array of tables. -/
def addElement (name : String) (es : Entries) : Option Entries :=
  match Keyed.get? es name with
  | none => some (Keyed.put es name (.tables [[]]))
  | some (.tables elements) => some (Keyed.put es name (.tables (elements ++ [[]])))
  | _ => none

/-- Assigns a value to a dotted key. The table that takes it is the one at hand or one that dotted
keys have made; a table on the way to that one may also be the parent of a header, or the last
element of an array. -/
def assign (v : Toml) : List String → Entries → Option Entries
  | [], _ => none
  | [name], es => if Keyed.has es name then none else some (Keyed.put es name (.value v))
  | name :: rest, es =>
    let passing := 1 < rest.length
    match Keyed.get? es name with
    | none => (assign v rest []).map fun sub => Keyed.put es name (.table .dotted sub)
    | some (.table origin sub) =>
      if origin = .dotted || passing && origin = .parent then
        (assign v rest sub).map fun sub => Keyed.put es name (.table origin sub)
      else none
    | some (.tables elements) =>
      match elements.getLast? with
      | none => none
      | some last =>
        if passing then
          (assign v rest last).map fun last =>
            Keyed.put es name (.tables (elements.dropLast ++ [last]))
        else none
    | some (.value _) => none

/-- A line of a document. -/
inductive Statement where
  | header (names : List String)
  | element (names : List String)
  | assignment (names : List String) (v : Toml)

/-- A document under construction, and the header that assignments go under. -/
structure Draft where
  entries : Entries
  header : List String

def Draft.empty : Draft := ⟨[], []⟩

/-- Carries out one statement. -/
def Draft.add (d : Draft) : Statement → Option Draft
  | .header names =>
    match names.getLast? with
    | none => none
    | some last => (withTable (openTable last) names.dropLast d.entries).map fun es => ⟨es, names⟩
  | .element names =>
    match names.getLast? with
    | none => none
    | some last => (withTable (addElement last) names.dropLast d.entries).map fun es => ⟨es, names⟩
  | .assignment names v =>
    (withTable (assign v names) d.header d.entries).map fun es => ⟨es, d.header⟩

mutual

/-- A finished node. -/
def Node.close : Node → Toml
  | .value v => v
  | .table _ entries => .table (closeEntries entries)
  | .tables elements => .array (closeElements elements)

def closeEntries : List (String × Node) → List (String × Toml)
  | [] => []
  | (k, n) :: rest => (k, Node.close n) :: closeEntries rest

def closeElements : List (List (String × Node)) → List Toml
  | [] => []
  | es :: rest => .table (closeEntries es) :: closeElements rest

end

end Toml
end DocQuery
