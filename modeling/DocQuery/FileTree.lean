import DocQuery.Keyed
import DocQuery.Path
import DocQuery.Text.Blank

/-
  A tree of directories, files and links, as far as a store sees one: what is at an absolute path,
  and the few ways to change it. An operation that fails changes nothing, but directories made along
  a path stay where a later name fails. Names and paths are limited in length.

  Links are followed along a path, so that a directory has several paths and one among them that
  leads through no link. No operation makes a link or takes one away. A link in the place of a file
  that is written is taken for one to a directory, so nothing is written through it or in its place.
-/

namespace DocQuery

/-- What a file holds: a text if its bytes are one. -/
inductive Contents where
  | text (s : String)
  | bytes (bs : List UInt8)
deriving DecidableEq

namespace Contents

/-- Bytes as contents. -/
def ofBytes (bytes : ByteArray) : Contents :=
  match String.fromUTF8? bytes with
  | some s => .text s
  | none => .bytes bytes.toList

end Contents

/-- Where a link leads: along names, from the root or from the directory in which it is. Single dots
among the names are dropped. -/
structure Link where
  absolute : Bool
  names : List FileName
  proper : ∀ name ∈ names, name.Proper
deriving DecidableEq

/-- Where the way of a link starts that is in a directory. -/
def Link.start (link : Link) (dir : Path) : Path := if link.absolute then [] else dir

inductive Entry where
  | directory
  | file (contents : Contents)
  | link (target : Link)
deriving DecidableEq

/-- Whether a path can go on at an entry. -/
def Entry.isWay : Entry → Bool
  | file _ => false
  | _ => true

/-- Why a file operation fails. -/
inductive FileError where
  | notFound
  | notDirectory
  | isDirectory
  | alreadyExists
  | nameTooLong
  | invalidName
  | tooManyLinks
  | notText
deriving DecidableEq

namespace FileError

def message : FileError → String
  | notFound => "No such file or directory"
  | notDirectory => "Not a directory"
  | isDirectory => "Is a directory"
  | alreadyExists => "File exists"
  | nameTooLong => "File name too long"
  | invalidName => "file name contained an unexpected NUL byte"
  | tooManyLinks => "Too many levels of symbolic links"
  | notText => "stream did not contain valid UTF-8"

end FileError

/-- Directories, files and links by the absolute paths that lead through no link. The root is always
there. -/
structure FileTree where
  entries : Keyed Path Entry

namespace FileTree

def empty : FileTree := ⟨[]⟩

/-- Records what is at an absolute path. -/
def insert (t : FileTree) (p : Path) (entry : Entry) : FileTree := ⟨Keyed.put t.entries p entry⟩

/-- What is at an absolute path. -/
def get? (t : FileTree) (p : Path) : Option Entry :=
  if p.isEmpty then some .directory else Keyed.get? t.entries p

def isDirectory (t : FileTree) (p : Path) : Bool := t.get? p == some .directory

/-- Whether a path is that of a directory or a link. -/
def isWay (t : FileTree) (p : Path) : Bool := (t.get? p).any Entry.isWay

/-- The text of a file, if it is one and holds a text. -/
def textAt? (t : FileTree) (p : Path) : Option String :=
  match t.get? p with
  | some (.file (.text s)) => some s
  | _ => none

/-- The names in a directory, with what is there. -/
def children (t : FileTree) (dir : Path) : List (FileName × Entry) :=
  t.entries.filterMap fun e =>
    match e.1.getLast? with
    | some name => if e.1 = dir ++ [name] then some (name, e.2) else none
    | none => none

/-- How many bytes a name may have. -/
def maxNameBytes : Nat := 255

/-- How many bytes a path may have. -/
def maxPathBytes : Nat := 4095

/-- How many links may be followed along a path. -/
def maxLinks : Nat := 40

/-- Whether a text can be used as a path. -/
def checkText (text : String) : Except FileError Unit :=
  if text.toList.contains '\x00' then .error .invalidName
  else if maxPathBytes < text.utf8ByteSize then .error .nameTooLong
  else .ok ()

/-- Whether an absolute path can be used. -/
def checkPath (p : Path) : Except FileError Unit :=
  if p.any FileName.hasNul then .error .invalidName
  else if maxPathBytes < p.byteSize then .error .nameTooLong
  else .ok ()

/-- Whether a name can be given to a new entry. -/
def checkName (name : FileName) : Except FileError Unit :=
  if name.hasNul then .error .invalidName
  else if maxNameBytes < name.byteSize then .error .nameTooLong
  else .ok ()

/-- Whether a directory can take an entry of a name. -/
def checkParent (t : FileTree) (dir : Path) (name : FileName) : Except FileError Unit :=
  match checkPath (dir ++ [name]) with
  | .error e => .error e
  | .ok () =>
    match t.get? dir with
    | some .directory => checkName name
    | some _ => .error .notDirectory
    | none => .error .notFound

/-- Writes a file in a directory, replacing one that is there. -/
def write (t : FileTree) (dir : Path) (name : FileName) (contents : Contents) :
    Except FileError FileTree :=
  match t.checkParent dir name with
  | .error e => .error e
  | .ok () =>
    let p := dir ++ [name]
    if t.isWay p then .error .isDirectory
    else .ok (t.insert p (.file contents))

/-- Gives a file of a directory another name there, replacing a file of that name. -/
def rename (t : FileTree) (dir : Path) (source target : FileName) : Except FileError FileTree :=
  match t.get? (dir ++ [source]), t.checkParent dir target with
  | none, _ => .error .notFound
  | some _, .error e => .error e
  | some entry, .ok () =>
    if t.isWay (dir ++ [target]) then .error .isDirectory
    else if entry.isWay then .error .notDirectory
    else .ok ⟨Keyed.put (Keyed.erase t.entries (dir ++ [source])) (dir ++ [target]) entry⟩

/-- Makes a directory in a directory. -/
def makeDirectory (t : FileTree) (dir : Path) (name : FileName) : Except FileError FileTree :=
  match t.checkParent dir name with
  | .error e => .error e
  | .ok () =>
    if (t.get? (dir ++ [name])).isSome then .error .alreadyExists
    else .ok (t.insert (dir ++ [name]) .directory)

/-! ## Paths in words -/

/-- The names in the text of a path, single dots dropped. -/
def namesOf (text : String) : List FileName :=
  (((Text.split '/' text.toList).map String.ofList).filter fun name => name ≠ "" && name ≠ ".").map
    .text

/-- Where the text of a path starts. -/
def startOf (workingDirectory : Path) (text : String) : Path :=
  if text.toList.head? = some '/' then [] else workingDirectory

/-- One step from a directory. What it leads to may be a link. -/
def step (t : FileTree) (here : Path) (name : FileName) : Except FileError Path :=
  match t.get? here with
  | none => .error .notFound
  | some .directory =>
    if name = .text ".." then .ok here.dropLast
    else
      match checkName name with
      | .error e => .error e
      | .ok () => .ok (here ++ [name])
  | some _ => .error .notDirectory

/-- Where a walk has come to, and how many links it may still follow. -/
structure Walked where
  place : Path
  links : Nat

/-- Walks along names; only the last may lead to nothing. At a link the walk is carried on along the
names of the link and then the others. -/
def walkOn (t : FileTree) (links : Nat) (carryOn : Path → List FileName → Except FileError Walked)
    (here : Path) : List FileName → Except FileError Walked
  | [] => .ok ⟨here, links⟩
  | name :: rest =>
    match t.step here name with
    | .error e => .error e
    | .ok next =>
      match t.get? next with
      | some (.link link) => carryOn (link.start here) (link.names ++ rest)
      | _ => walkOn t links carryOn next rest

/-- Walks along names and through links, so many at most. -/
def walk (t : FileTree) : (links : Nat) → Path → List FileName → Except FileError Walked
  | 0 => t.walkOn 0 fun _ _ => .error .tooManyLinks
  | links + 1 => t.walkOn (links + 1) (t.walk links)

/-- The directory at the end of names, all of which are there. -/
def existingDirectory (t : FileTree) (links : Nat) (here : Path) (names : List FileName) :
    Except FileError Walked :=
  match t.walk links here names with
  | .error e => .error e
  | .ok w =>
    match t.get? w.place with
    | some .directory => .ok w
    | some _ => .error .notDirectory
    | none => .error .notFound

/-- Whether a path is written so that only a directory can be meant. -/
def meansDirectory (text : String) : Bool :=
  match (Text.split '/' text.toList).getLast? with
  | some last => last = [] || last = ['.'] || last = ['.', '.']
  | none => false

/-- The absolute path of an existing entry, without links. -/
def resolve (t : FileTree) (workingDirectory : Path) (text : String) : Except FileError Path :=
  if text = "" then .error .notFound
  else
    match checkText text with
    | .error e => .error e
    | .ok () =>
      match t.walk maxLinks (startOf workingDirectory text) (namesOf text) with
      | .error e => .error e
      | .ok w =>
        match t.get? w.place with
        | none => .error .notFound
        | some .directory => .ok w.place
        | some _ => if meansDirectory text then .error .notDirectory else .ok w.place

def existsAt (t : FileTree) (workingDirectory : Path) (text : String) : Bool :=
  match t.resolve workingDirectory text with
  | .ok _ => true
  | .error _ => false

/-- Reads a file as text. -/
def readText (t : FileTree) (workingDirectory : Path) (text : String) : Except FileError String :=
  match t.resolve workingDirectory text with
  | .error e => .error e
  | .ok p =>
    match t.get? p with
    | some (.file (.text s)) => .ok s
    | some (.file (.bytes _)) => .error .notText
    | some _ => .error .isDirectory
    | none => .error .notFound

/-! ## Making directories -/

/-- Goes through a link in a directory to another directory. -/
def goThrough (t : FileTree) (links : Nat) (here : Path) (link : Link) : Except FileError Walked :=
  match links with
  | 0 => .error .tooManyLinks
  | links + 1 => t.existingDirectory links (link.start here) link.names

/-- A tree after directories were made, and where the last one is. -/
structure Made where
  files : FileTree
  result : Except FileError Path

/-- Makes the directories along names that are not there yet. Behind a link all have to be there. -/
def makeAlong (t : FileTree) (links : Nat) (here : Path) : List FileName → Made
  | [] => ⟨t, if t.isDirectory here then .ok here else .error .notDirectory⟩
  | name :: rest =>
    match t.step here name with
    | .error e => ⟨t, .error e⟩
    | .ok next =>
      match t.get? next with
      | some (.link link) =>
        match t.goThrough links here link with
        | .error e => ⟨t, .error e⟩
        | .ok w => makeAlong t w.links w.place rest
      | some _ => makeAlong t links next rest
      | none =>
        match t.makeDirectory here name with
        | .error e => ⟨t, .error e⟩
        | .ok t' => makeAlong t' links next rest

/-- The names of the directories that are made for the text of a path. A last name written with a
dot behind it is not made but has to be there. -/
def namesToMake (text : String) : List FileName :=
  let pieces := (Text.split '/' text.toList).filter fun piece => piece ≠ []
  if pieces.getLast? = some ['.'] then (namesOf text).dropLast else namesOf text

/-- Makes a directory and what is missing above it; gives its path without links. -/
def makeDirectories (t : FileTree) (workingDirectory : Path) (text : String) : Made :=
  let start := startOf workingDirectory text
  match checkText text with
  | .error e => ⟨t, .error e⟩
  | .ok () =>
    match t.makeAlong maxLinks start (namesToMake text) with
    | ⟨t', .error e⟩ => ⟨t', .error e⟩
    | ⟨t', .ok _⟩ => ⟨t', (t'.existingDirectory maxLinks start (namesOf text)).map Walked.place⟩

/-- Makes a file without contents unless there is one, and the directories above it; gives the
directory. -/
def openFile (t : FileTree) (workingDirectory : Path) (text : String) : Made :=
  let names := namesOf text
  match t.makeAlong maxLinks (startOf workingDirectory text) names.dropLast, names.getLast? with
  | ⟨t', .ok dir⟩, some name =>
    match checkText text, t'.get? (dir ++ [name]) with
    | .error e, _ => ⟨t', .error e⟩
    | .ok (), some (.file _) => ⟨t', .ok dir⟩
    | .ok (), _ =>
      match t'.write dir name (.text "") with
      | .error e => ⟨t', .error e⟩
      | .ok t'' => ⟨t'', .ok dir⟩
  | ⟨t', .error e⟩, _ => ⟨t', .error e⟩
  | ⟨t', .ok _⟩, none => ⟨t', .error .isDirectory⟩

end FileTree
end DocQuery
