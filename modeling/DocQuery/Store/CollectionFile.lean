import DocQuery.ExtendedJson.Reader
import DocQuery.ExtendedJson.Writer
import DocQuery.Log.Record
import DocQuery.Store.Error

/-
  Collections as files: one file per collection, one document per line. A collection is written to
  a temporary file first, which then takes the place of the old one.
-/

namespace DocQuery.CollectionFile

def ending : String := ".ndjson"

def fileName (collection : String) : FileName := .text (collection ++ ending)

def temporaryName (collection : String) : FileName := .text (collection ++ ending ++ ".tmp")

/-- The collection that a file holds: its name without the ending, if it is a text and something is
left. -/
def collectionOf? : FileName → Option String
  | .text file =>
    let cs := file.toList
    let n := cs.length - ending.length
    if 0 < n && cs.drop n = ending.toList then some (String.ofList (cs.take n)) else none
  | .bytes _ _ => none

/-- The text of a collection file. -/
def textOf (docs : List Document) : String :=
  String.join (docs.map fun d => Value.documentText d ++ "\n")

/-- Reads lines; blank ones do not count as documents but as lines. -/
def readLines (file : String) : Nat → List (List Char) → Except IoError (List Document)
  | _, [] => .ok []
  | number, line :: rest =>
    let line := Text.trimBlank line
    if line.isEmpty then readLines file (number + 1) rest
    else
      match Value.documentOfText? (String.ofList line) with
      | none => .error (.unreadableLine file number)
      | some d => (readLines file (number + 1) rest).map (d :: ·)

/-- The documents of a collection file. -/
def documentsOf (file : String) (text : String) : Except IoError (List Document) :=
  readLines file 1 (Text.split '\n' text.toList)

/-- The documents of an entry that is named like a collection file. A link is taken for one to a
directory. -/
def readEntry (file : String) : Entry → Except IoError (List Document)
  | .directory | .link _ => .error (.system .isDirectory)
  | .file (.bytes _) => .error (.system .notText)
  | .file (.text s) => documentsOf file s

/-- What came of reading a directory, and what was said meanwhile. -/
structure Loaded where
  log : List Log.Record
  result : Except IoError (Keyed String (List Document))

/-- Reads the entries of a directory one after the other. -/
def loadEntries (dir : Path) : List (FileName × Entry) → Loaded
  | [] => ⟨[], .ok []⟩
  | (name, entry) :: rest =>
    match collectionOf? name with
    | none => loadEntries dir rest
    | some collection =>
      let file := Path.text (dir ++ [name])
      match readEntry file entry with
      | .error e => ⟨[], .error e⟩
      | .ok docs =>
        let note : Log.Record := ⟨.debug, Log.filesTarget,
          "loaded " ++ toString docs.length ++ " documents from " ++ file⟩
        let others := loadEntries dir rest
        ⟨note :: others.log, others.result.map ((collection, docs) :: ·)⟩

/-- Reads all collection files of a directory. -/
def loadDirectory (files : FileTree) (dir : Path) : Loaded :=
  match FileTree.checkPath dir with
  | .error e => ⟨[], .error (.system e)⟩
  | .ok () => loadEntries dir (files.children dir)

/-- What came of writing a file. The tree may have changed even if it failed. -/
structure Written where
  files : FileTree
  result : Except FileError Unit

/-- Writes a collection file. -/
def write (files : FileTree) (dir : Path) (collection : String) (docs : List Document) : Written :=
  match files.write dir (temporaryName collection) (.text (textOf docs)) with
  | .error e => ⟨files, .error e⟩
  | .ok staged =>
    match staged.rename dir (temporaryName collection) (fileName collection) with
    | .error e => ⟨staged, .error e⟩
    | .ok done => ⟨done, .ok ()⟩

end DocQuery.CollectionFile
