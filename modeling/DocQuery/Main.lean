import DocQuery.CommandLine

/-
  The program: takes a picture of the files that an invocation can touch, runs it on the picture,
  and carries the differences out on disk.
-/

namespace DocQuery.CommandLine

/-- The variables that the program looks at. -/
def variableNames : List String :=
  ["MULTIVARKA_URI", "MULTIVARKA_COLLECTION", "MULTIVARKA_LOG_LEVEL", "MULTIVARKA_CONFIG",
    "XDG_CONFIG_HOME", "HOME"]

/-- The number of the user in what the system tells about a process. -/
def userNumber? (status : String) : Option String :=
  (Text.split '\n' status.toList).findSome? fun line =>
    match Text.split '\t' line with
    | ['U', 'i', 'd', ':'] :: number :: _ => some (String.ofList number)
    | _ => none

/-- The home directory of a user in the table of accounts. -/
def homeOf? (accounts number : String) : Option String :=
  (Text.split '\n' accounts.toList).findSome? fun line =>
    match (Text.split ':' line).map String.ofList with
    | _ :: _ :: n :: _ :: _ :: home :: _ => if n = number && home ≠ "" then some home else none
    | _ => none

def accountHome : IO (Option String) := do
  try
    let status ← IO.FS.readFile "/proc/self/status"
    let accounts ← IO.FS.readFile "/etc/passwd"
    return (userNumber? status).bind (homeOf? accounts)
  catch _ => return none

/-- The values of variables that are set. -/
def readVariables (names : List String) : IO (List (String × String)) :=
  names.filterMapM fun name => do
    return (← IO.getEnv name).map fun value => (name, value)

/-- The environment of the process. -/
def readEnvironment : IO Environment := do
  return ⟨← readVariables variableNames, FileTree.namesOf (← IO.currentDir).toString,
    ← accountHome⟩

/-! ## From disk -/

/-- Adds what is at a path on disk to a picture. The path leads through no link. A file that cannot
be read holds no text. -/
def copyPlain (files : FileTree) (p : Path) : IO FileTree := do
  try
    let place ← IO.FS.realPath p.text
    if ← place.isDir then return files.insert p .directory
    else
      let contents ← try
          pure (Contents.ofBytes (← IO.FS.readBinFile place))
        catch _ => pure (.bytes [])
      return files.insert p (.file contents)
  catch _ => return files

/-- Adds what is at a path on disk, and what it leads to if it is a link; gives the path without
links. -/
def copyEntry (files : FileTree) (p : Path) : IO (FileTree × Path) := do
  let place : Path ← try
      pure (FileTree.namesOf (← IO.FS.realPath p.text).toString)
    catch _ => pure p
  let mut files := files
  for n in [0:place.length] do
    files ← copyPlain files (place.take (n + 1))
  if place = p then return (files, p)
  else if proper : ∀ name ∈ place, name.Proper then
    return (files.insert p (.link ⟨true, place, proper⟩), place)
  else return (files, p)

/-- Adds what is along the text of a path. -/
def copyPath (files : FileTree) (workingDirectory : Path) (text : String) :
    IO (FileTree × Path) := do
  let start := FileTree.startOf workingDirectory text
  let mut (files, here) ← copyEntry files start
  for name in FileTree.namesOf text do
    if name = .text ".." then here := here.dropLast
    else (files, here) ← copyEntry files (here ++ [name])
  return (files, here)

/-- Adds a directory with what is in it. -/
def copyDirectory (files : FileTree) (workingDirectory : Path) (text : String) : IO FileTree := do
  let (files, here) ← copyPath files workingDirectory text
  let mut files := files
  try
    for child in ← (← IO.FS.realPath here.text).readDir do
      files := (← copyEntry files (here ++ [.text child.fileName])).1
    return files
  catch _ => return files

/-- The picture for the arguments: first the configuration files, then the directories that the
configuration names. The environment is given back with the variables that it refers to. -/
def takePicture (env : Environment) (args : List String) : IO (Environment × FileTree) := do
  match parse args with
  | .run i =>
    let mut files := FileTree.empty
    for path in configFiles env i do
      files := (← copyPath files env.workingDirectory path).1
    match Config.load env files (overrides i) i.config with
    | .error _ => return (env, files)
    | .ok config =>
      let names := (Log.Reference.names (config.log.directory.getD "").toList).map String.ofList
      let env := { env with bindings := env.bindings ++ (← readVariables names) }
      for path in directories env config do
        files ← copyDirectory files env.workingDirectory path
      return (env, files)
  | _ => return (env, .empty)

/-! ## To disk -/

/-- Writes a file beside its place first, so that it is replaced as a whole. -/
def replaceFile (p : Path) (contents : Contents) : IO Unit := do
  let bytes := match contents with
    | .text s => s.toUTF8
    | .bytes bs => ⟨bs.toArray⟩
  let beside := p.text ++ ".part"
  IO.FS.writeBinFile beside bytes
  IO.FS.rename beside p.text

/-- Makes the disk agree with a picture where it differs from the one that was taken. -/
def carryOut (before after : FileTree) : IO Unit := do
  for (p, entry) in after.entries do
    if before.get? p ≠ some entry then
      match entry with
      | .directory => IO.FS.createDirAll p.text
      | .file contents => replaceFile p contents
      | .link _ => pure ()
  for (p, _) in before.entries do
    if (after.get? p).isNone then IO.FS.removeFile p.text

/-- The number that twelve bytes stand for. -/
def numberOf (bytes : ByteArray) : Nat := bytes.toList.foldl (fun n b => n * 256 + b.toNat) 0

end DocQuery.CommandLine

open DocQuery.CommandLine in
/-- Runs the program on the arguments of the process. -/
def main (args : List String) : IO UInt32 := do
  let env ← readEnvironment
  let (env, before) ← takePicture env args
  let firstId := numberOf (← IO.getRandomBytes 12)
  let outcome := run env before (.numbered firstId) args
  carryOut before outcome.files
  for note in outcome.notes do
    IO.eprintln note
  match outcome.result with
  | .ok lines =>
    for line in lines do
      IO.println line
  | .error failure => IO.eprintln failure.message
  return UInt32.ofNat outcome.code
