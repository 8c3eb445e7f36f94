import DocQuery.Toml.Scalar
import DocQuery.Json.Reader

/-
  Reading configuration documents. Each reader takes something off the front of the text and gives
  the rest.
-/

namespace DocQuery.Toml

def isSpace (c : Char) : Bool := c = ' ' || c = '\t'

def skipSpace (cs : List Char) : List Char := cs.dropWhile isSpace

/-- Characters that may not stand in a comment or a string on one line. -/
def isControl (c : Char) : Bool := (c.toNat < 32 && c ≠ '\t') || c.toNat = 127

/-- Takes the end of a line off the front. -/
def newline? : List Char → Option (List Char)
  | '\n' :: cs => some cs
  | '\r' :: '\n' :: cs => some cs
  | _ => none

/-- Skips a comment up to the end of its line; a control character in it is refused. -/
def skipComment : List Char → Option (List Char)
  | '#' :: cs =>
    let isEnd (c : Char) : Bool := c = '\n' || c = '\r'
    if (cs.takeWhile fun c => !isEnd c).any isControl then none
    else some (cs.dropWhile fun c => !isEnd c)
  | cs => some cs

/-- Skips blanks, comments and line ends inside brackets and braces. -/
def skipFillerLines : Nat → List Char → Option (List Char)
  | 0, _ => none
  | fuel + 1, cs =>
    match skipComment (skipSpace cs) with
    | none => none
    | some cs =>
      match newline? cs with
      | some rest => skipFillerLines fuel rest
      | none => some cs

def skipFiller (cs : List Char) : Option (List Char) := skipFillerLines (cs.length + 1) cs

/-- The number of a fixed count of hexadecimal digits. -/
def hexNumber? (count : Nat) (cs : List Char) : Option (Nat × List Char) :=
  let digits := cs.take count
  if digits.length = count && digits.all isHexDigit then some (valueIn 16 digits, cs.drop count)
  else none

/-- A character by its number, if it is one. -/
def charOf? (n : Nat) : Option Char :=
  if n < 0xd800 || (0xe000 ≤ n && n < 0x110000) then some (Char.ofNat n) else none

/-- A character by a fixed count of hexadecimal digits. -/
def numbered? (count : Nat) (cs : List Char) : Option (Char × List Char) := do
  let (n, cs) ← hexNumber? count cs
  let c ← charOf? n
  some (c, cs)

/-- An escape behind its backslash. -/
def escape? : List Char → Option (Char × List Char)
  | 'b' :: cs => some ('\x08', cs)
  | 'e' :: cs => some ('\x1b', cs)
  | 't' :: cs => some ('\t', cs)
  | 'n' :: cs => some ('\n', cs)
  | 'f' :: cs => some ('\x0c', cs)
  | 'r' :: cs => some ('\r', cs)
  | '\x22' :: cs => some ('\x22', cs)
  | '\\' :: cs => some ('\\', cs)
  | 'x' :: cs => numbered? 2 cs
  | 'u' :: cs => numbered? 4 cs
  | 'U' :: cs => numbered? 8 cs
  | _ => none

/-- A string on one line behind its opening quote. -/
def readBasic : Nat → List Char → Option (List Char × List Char)
  | 0, _ => none
  | _ + 1, [] => none
  | fuel + 1, c :: cs =>
    if c = '\x22' then some ([], cs)
    else if c = '\\' then
      match escape? cs with
      | none => none
      | some (c, cs) => (readBasic fuel cs).map fun (s, cs) => (c :: s, cs)
    else if isControl c then none
    else (readBasic fuel cs).map fun (s, cs) => (c :: s, cs)

/-- A string without escapes behind its opening quote. -/
def readLiteral : List Char → Option (List Char × List Char)
  | [] => none
  | c :: cs =>
    if c = '\x27' then some ([], cs)
    else if isControl c then none
    else (readLiteral cs).map fun (s, cs) => (c :: s, cs)

/-- The quotes at the end of a string of several lines: three close it, and up to two before them
belong to it. -/
def closing? (quote : Char) (cs : List Char) : Option (List Char × List Char) :=
  let quotes := (cs.takeWhile (· = quote)).length
  if quotes < 3 then none
  else
    let inside := min (quotes - 3) 2
    some (List.replicate inside quote, cs.drop (inside + 3))

/-- Skips blanks and line ends. -/
def skipBlankLines : List Char → List Char
  | [] => []
  | '\r' :: '\n' :: cs => skipBlankLines cs
  | c :: cs => if isSpace c || c = '\n' then skipBlankLines cs else c :: cs

/-- Skips blanks and line ends behind a backslash at the end of a line. -/
def skipFolded (cs : List Char) : Option (List Char) :=
  (newline? (skipSpace cs)).map skipBlankLines

/-- A string of several lines behind its opening quotes. Line ends are kept as they stand. -/
def readLines (escapes : Bool) (quote : Char) : Nat → List Char → Option (List Char × List Char)
  | 0, _ => none
  | _ + 1, [] => none
  | fuel + 1, c :: cs =>
    match closing? quote (c :: cs) with
    | some r => some r
    | none =>
      match c, cs with
      | '\r', '\n' :: cs =>
        (readLines escapes quote fuel cs).map fun (s, cs) => ('\r' :: '\n' :: s, cs)
      | c, cs =>
        if escapes && c = '\\' then
          match skipFolded cs with
          | some cs => readLines escapes quote fuel cs
          | none =>
            match escape? cs with
            | none => none
            | some (c, cs) => (readLines escapes quote fuel cs).map fun (s, cs) => (c :: s, cs)
        else if isControl c && c ≠ '\n' then none
        else (readLines escapes quote fuel cs).map fun (s, cs) => (c :: s, cs)

def dropFirstNewline (cs : List Char) : List Char := (newline? cs).getD cs

/-- A quoted string of any of the four kinds. -/
def readString (cs : List Char) : Option (String × List Char) :=
  let fuel := cs.length + 1
  let result :=
    match cs with
    | '\x22' :: '\x22' :: '\x22' :: cs => readLines true '\x22' fuel (dropFirstNewline cs)
    | '\x27' :: '\x27' :: '\x27' :: cs => readLines false '\x27' fuel (dropFirstNewline cs)
    | '\x22' :: cs => readBasic fuel cs
    | '\x27' :: cs => readLiteral cs
    | _ => none
  result.map fun (s, cs) => (String.ofList s, cs)

def isBareKeyChar (c : Char) : Bool :=
  ('a' ≤ c && c ≤ 'z') || ('A' ≤ c && c ≤ 'Z') || c.isDigit || c = '_' || c = '-'

/-- One name of a key: bare or quoted on one line. -/
def readName (cs : List Char) : Option (String × List Char) :=
  match cs with
  | '\x22' :: rest => (readBasic (rest.length + 1) rest).map fun (s, cs) => (String.ofList s, cs)
  | '\x27' :: rest => (readLiteral rest).map fun (s, cs) => (String.ofList s, cs)
  | cs =>
    let name := cs.takeWhile isBareKeyChar
    if name.isEmpty then none else some (String.ofList name, cs.dropWhile isBareKeyChar)

/-- How deep brackets and braces may stand in each other, and how many names a key may have. -/
def maxNesting : Nat := 80

/-- Names with dots between them. Gives what follows them, blanks skipped. -/
def readNames : Nat → List Char → Option (List String × List Char)
  | 0, _ => none
  | fuel + 1, cs =>
    match readName (skipSpace cs) with
    | none => none
    | some (name, cs) =>
      match skipSpace cs with
      | '.' :: cs => (readNames fuel cs).map fun (names, cs) => (name :: names, cs)
      | cs => some ([name], cs)

/-- A key. Gives what follows it, blanks skipped. -/
def readKey (cs : List Char) : Option (List String × List Char) :=
  match readNames (cs.length + 1) cs with
  | none => none
  | some (names, cs) => if names.length ≤ maxNesting then some (names, cs) else none

def isScalarChar (c : Char) : Bool :=
  ('a' ≤ c && c ≤ 'z') || ('A' ≤ c && c ≤ 'Z') || c.isDigit || c = '_' || c = '-' || c = '+'
    || c = '.' || c = ':'

/-- An unquoted value. A date may have one blank before its time of day. -/
def readScalar (cs : List Char) : Option (Toml × List Char) :=
  let word := cs.takeWhile isScalarChar
  let rest := cs.dropWhile isScalarChar
  let (word, rest) :=
    match date? word, rest with
    | some [], ' ' :: d :: more =>
      if d.isDigit then
        (word ++ ' ' :: d :: more.takeWhile isScalarChar, more.dropWhile isScalarChar)
      else (word, rest)
    | _, _ => (word, rest)
  (scalar? word).map fun v => (v, rest)

mutual

/-- A value that may hold so many levels of brackets and braces. -/
def readValue : Nat → Nat → List Char → Option (Toml × List Char)
  | 0, _, _ => none
  | fuel + 1, levels, cs =>
    match levels, cs with
    | 0, '[' :: _ => none
    | 0, '\x7b' :: _ => none
    | levels + 1, '[' :: cs =>
      (readItems fuel levels cs).map fun (items, cs) => (.array items, cs)
    | levels + 1, '\x7b' :: cs =>
      (readInline fuel levels [] cs).map fun (es, cs) => (.table (closeEntries es), cs)
    | _, '\x22' :: _ => (readString cs).map fun (s, cs) => (.string s, cs)
    | _, '\x27' :: _ => (readString cs).map fun (s, cs) => (.string s, cs)
    | _, cs => readScalar cs

/-- The items of an array up to its bracket; a comma may stand behind the last one. -/
def readItems : Nat → Nat → List Char → Option (List Toml × List Char)
  | 0, _, _ => none
  | fuel + 1, levels, cs =>
    match skipFiller cs with
    | none => none
    | some (']' :: cs) => some ([], cs)
    | some cs =>
      match readValue fuel levels cs with
      | none => none
      | some (v, cs) =>
        match skipFiller cs with
        | some (',' :: cs) => (readItems fuel levels cs).map fun (items, cs) => (v :: items, cs)
        | some (']' :: cs) => some ([v], cs)
        | _ => none

/-- The assignments of a table up to its brace; a comma may stand behind the last one. -/
def readInline : Nat → Nat → Entries → List Char → Option (Entries × List Char)
  | 0, _, _, _ => none
  | fuel + 1, levels, es, cs =>
    match skipFiller cs with
    | none => none
    | some ('\x7d' :: cs) => some (es, cs)
    | some cs =>
      match readInlineAssignment fuel levels es cs with
      | none => none
      | some (es, cs) =>
        match skipFiller cs with
        | some (',' :: cs) => readInline fuel levels es cs
        | some ('\x7d' :: cs) => some (es, cs)
        | _ => none

/-- One assignment of a table in braces. -/
def readInlineAssignment : Nat → Nat → Entries → List Char → Option (Entries × List Char)
  | 0, _, _, _ => none
  | fuel + 1, levels, es, cs =>
    match readKey cs with
    | none => none
    | some (names, cs) =>
      match skipFiller cs with
      | some ('=' :: cs) =>
        match skipFiller cs with
        | none => none
        | some cs =>
          match readValue fuel levels cs with
          | none => none
          | some (v, cs) => (assign v names es).map fun es => (es, cs)
      | _ => none

end

/-- A statement at the start of a line, if the line has one. -/
def readStatement (cs : List Char) : Option (Option Statement × List Char) :=
  match cs with
  | '[' :: '[' :: cs =>
    match readKey cs with
    | some (names, ']' :: ']' :: cs) => some (some (.element names), cs)
    | _ => none
  | '[' :: cs =>
    match readKey cs with
    | some (names, ']' :: cs) => some (some (.header names), cs)
    | _ => none
  | [] => some (none, [])
  | c :: _ =>
    if c = '\n' || c = '\r' || c = '#' then some (none, cs)
    else
      match readKey cs with
      | some (names, '=' :: cs) =>
        let fuel := 2 * cs.length + 2
        (readValue fuel maxNesting (skipSpace cs)).map fun (v, cs) =>
          (some (.assignment names v), cs)
      | _ => none

/-- Reads lines and carries their statements out. -/
def readDocument : Nat → Draft → List Char → Option Draft
  | 0, _, _ => none
  | fuel + 1, draft, cs =>
    match readStatement (skipSpace cs) with
    | none => none
    | some (statement, cs) =>
      let draft? := match statement with
        | none => some draft
        | some st => draft.add st
      match draft?, skipComment (skipSpace cs) with
      | some draft, some [] => some draft
      | some draft, some cs =>
        match newline? cs with
        | some cs => readDocument fuel draft cs
        | none => none
      | _, _ => none

/-- The entries of a document. -/
def ofText? (text : String) : Option (Keyed String Toml) :=
  let cs := match text.toList with
    | '\ufeff' :: cs => cs
    | cs => cs
  (readDocument (cs.length + 1) .empty cs).map fun d => closeEntries d.entries

end DocQuery.Toml
