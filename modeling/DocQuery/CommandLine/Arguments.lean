/-
  Command line arguments: options before the command, options of the command, and the rules for
  both. An option that takes a value takes the next argument or what follows an equals sign; a
  value that begins with a hyphen has to be given in the second way.
-/

namespace DocQuery.CommandLine

/-- The values are JSON; anything that is not JSON is taken as a string. -/
structure FilterArguments where
  field : Option String
  negated : Bool
  equal : Option String
  lessThan : Option String
  greaterThan : Option String
  /-- A JSON array of candidates. -/
  among : Option String

inductive Command where
  | find (filter : FilterArguments)
  | remove (filter : FilterArguments)
  | update (filter : FilterArguments) (assignments : List String)
  | insert (document : String)

structure Invocation where
  config : Option String
  uri : Option String
  collection : Option String
  logLevel : Option String
  command : Command

/-- What arguments ask for. -/
inductive Request where
  | run (i : Invocation)
  | version
  | help
  | refused

/-! ## Options -/

structure OptionRule where
  name : String
  short : Option Char
  takesValue : Bool
  /-- Whether the value may be empty; that of a path may not. -/
  takesEmpty : Bool
  repeatable : Bool

/-- Whether an option cannot have a value. -/
def OptionRule.refuses (rule : OptionRule) (value : String) : Bool :=
  !rule.takesEmpty && value.isEmpty

/-- An option that was given, with its value; a flag has the empty value. -/
abbrev Given := List (String × String)

/-- How the options came to an end. -/
inductive Ending where
  | finished
  /-- An argument that is no option, and what follows it. -/
  | argument (word : String) (rest : List String)
  | version
  | help
  | refused

structure Scanned where
  given : Given
  ending : Ending

/-- Whether an argument is written like an option. -/
def looksLikeOption (word : String) : Bool :=
  match word.toList with
  | '-' :: _ :: _ => true
  | _ => false

/-- Splits at the first equals sign. -/
def splitEquals (cs : List Char) : List Char × Option (List Char) :=
  match cs.dropWhile (· ≠ '=') with
  | [] => (cs, none)
  | _ :: value => (cs.takeWhile (· ≠ '='), some value)

/-- An option as written: its rule and a value that is part of the argument. -/
inductive Written where
  | option (rule : OptionRule) (value : Option String)
  | version
  | help
  | unknown

/-- Reads an argument that is written like an option. Only a command line as a whole has a
version. -/
def readOption (rules : List OptionRule) (hasVersion : Bool) (word : String) : Written :=
  match word.toList with
  | '-' :: '-' :: rest =>
    let (name, value) := splitEquals rest
    let name := String.ofList name
    if name = "help" && value.isNone then .help
    else if name = "version" && hasVersion && value.isNone then .version
    else
      match rules.find? fun r => r.name = name with
      | none => .unknown
      | some rule =>
        if !rule.takesValue && value.isSome then .unknown
        else .option rule (value.map String.ofList)
  | '-' :: c :: rest =>
    if c = 'h' then .help
    else if c = 'V' && hasVersion then .version
    else
      match rules.find? fun r => r.short = some c with
      | none => .unknown
      | some rule =>
        match rest with
        | [] => .option rule none
        | '=' :: value => .option rule (some (String.ofList value))
        | value => .option rule (some (String.ofList value))
  | _ => .unknown

/-- Takes options one after the other, up to the first argument that is none. -/
def scan (rules : List OptionRule) (hasVersion : Bool) (given : Given) : List String → Scanned
  | [] => ⟨given, .finished⟩
  | word :: rest =>
    if word = "--" then ⟨given, if rest.isEmpty then .finished else .refused⟩
    else if !looksLikeOption word then ⟨given, .argument word rest⟩
    else
      match readOption rules hasVersion word with
      | .version => ⟨given, .version⟩
      | .help => ⟨given, .help⟩
      | .unknown => ⟨given, .refused⟩
      | .option rule value =>
        if !rule.repeatable && given.any fun g => g.1 = rule.name then ⟨given, .refused⟩
        else if !rule.takesValue then scan rules hasVersion (given ++ [(rule.name, "")]) rest
        else
          match value, rest with
          | some value, rest =>
            if rule.refuses value then ⟨given, .refused⟩
            else scan rules hasVersion (given ++ [(rule.name, value)]) rest
          | none, value :: rest =>
            if looksLikeOption value || rule.refuses value then ⟨given, .refused⟩
            else scan rules hasVersion (given ++ [(rule.name, value)]) rest
          | none, [] => ⟨given, .refused⟩

/-- The value of an option that is given at most once. -/
def valueOf (given : Given) (name : String) : Option String :=
  (given.find? fun g => g.1 = name).map Prod.snd

/-- The values of an option, in order. -/
def valuesOf (given : Given) (name : String) : List String :=
  (given.filter fun g => g.1 = name).map Prod.snd

/-! ## The rules of this command line -/

def single (name : String) (short : Option Char) : OptionRule := ⟨name, short, true, true, false⟩

def mainRules : List OptionRule :=
  [⟨"config", none, true, false, false⟩, single "uri" none,
    single "collection" (some 'c'), single "log-level" none]

def filterRules : List OptionRule :=
  [single "where" none, ⟨"not", none, false, true, false⟩, single "equal" none,
    single "less-than" none, single "greater-than" none, single "include" none]

def filterArguments (given : Given) : FilterArguments where
  field := valueOf given "where"
  negated := (valueOf given "not").isSome
  equal := valueOf given "equal"
  lessThan := valueOf given "less-than"
  greaterThan := valueOf given "greater-than"
  among := valueOf given "include"

/-- What comes of reading a command: the command, a wish for help, or a refusal. -/
inductive CommandResult where
  | command (c : Command)
  | help
  | refused

/-- Finishes a command from its options. -/
def finish (s : Scanned) (make : Given → Option Command) : CommandResult :=
  match s.ending with
  | .finished =>
    match make s.given with
    | some c => .command c
    | none => .refused
  | .help => .help
  | _ => .refused

/-- Reads a command and its options. -/
def readCommand (word : String) (rest : List String) : CommandResult :=
  if word = "find" then
    finish (scan filterRules false [] rest) fun given => some (.find (filterArguments given))
  else if word = "remove" then
    finish (scan filterRules false [] rest) fun given => some (.remove (filterArguments given))
  else if word = "update" then
    finish (scan (filterRules ++ [⟨"set", none, true, true, true⟩]) false [] rest) fun given =>
      match valuesOf given "set" with
      | [] => none
      | assignments => some (.update (filterArguments given) assignments)
  else if word = "insert" then
    finish (scan [single "doc" none] false [] rest) fun given => (valueOf given "doc").map .insert
  else if word = "help" then
    match rest with
    | [] => .help
    | [topic] =>
      if ["find", "remove", "update", "insert", "help"].contains topic then .help else .refused
    | _ => .refused
  else .refused

/-- Reads the arguments of the program. -/
def parse (args : List String) : Request :=
  let s := scan mainRules true [] args
  match s.ending with
  | .version => .version
  | .help => .help
  | .refused => .refused
  | .finished => .refused
  | .argument word rest =>
    match readCommand word rest with
    | .command c => .run ⟨valueOf s.given "config", valueOf s.given "uri",
        valueOf s.given "collection", valueOf s.given "log-level", c⟩
    | .help => .help
    | .refused => .refused

end DocQuery.CommandLine
