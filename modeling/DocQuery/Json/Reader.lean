import DocQuery.Json.Number
import DocQuery.Encoding.Hex

/-
  Reading JSON text. Each reader takes a value off the front and gives the rest. Arrays and
  objects may stand at most 127 deep in one another; a text that goes deeper is refused.
-/

namespace DocQuery.Json

def isSpace (c : Char) : Bool := c = ' ' || c = '\n' || c = '\t' || c = '\r'

def skipSpace (cs : List Char) : List Char := cs.dropWhile isSpace

/-- The number of four hexadecimal digits. -/
def hexQuad? (a b c d : Char) : Option Nat :=
  match Encoding.hexValue? a, Encoding.hexValue? b, Encoding.hexValue? c, Encoding.hexValue? d with
  | some a, some b, some c, some d => some (((a * 16 + b) * 16 + c) * 16 + d)
  | _, _, _, _ => none

/-- The character of a one-letter escape. -/
def simpleEscape? (c : Char) : Option Char :=
  if c = '\x22' then some '\x22'
  else if c = '\\' then some '\\'
  else if c = '/' then some '/'
  else if c = 'b' then some '\x08'
  else if c = 'f' then some '\x0c'
  else if c = 'n' then some '\n'
  else if c = 'r' then some '\r'
  else if c = 't' then some '\t'
  else none

/-- Reads a string behind its opening quote. Half of a surrogate pair alone is refused, and so
is a bare control character. -/
def readString : List Char → Option (List Char × List Char)
  | [] => none
  | c :: rest =>
    if c = '\x22' then some ([], rest)
    else if c = '\\' then
      match rest with
      | 'u' :: p :: q :: r :: s :: rest =>
        match hexQuad? p q r s with
        | none => none
        | some high =>
          if 0xdc00 ≤ high && high ≤ 0xdfff then none
          else if 0xd800 ≤ high && high ≤ 0xdbff then
            match rest with
            | '\\' :: 'u' :: t :: u :: v :: w :: rest =>
              match hexQuad? t u v w with
              | none => none
              | some low =>
                if 0xdc00 ≤ low && low ≤ 0xdfff then
                  let n := 0x10000 + (high - 0xd800) * 0x400 + (low - 0xdc00)
                  (readString rest).map fun (s, rest) => (Char.ofNat n :: s, rest)
                else none
            | _ => none
          else (readString rest).map fun (s, rest) => (Char.ofNat high :: s, rest)
      | e :: rest =>
        match simpleEscape? e with
        | none => none
        | some c => (readString rest).map fun (s, rest) => (c :: s, rest)
      | [] => none
    else if c.toNat < 32 then none
    else (readString rest).map fun (s, rest) => (c :: s, rest)

/-- Takes a word off the front. -/
def takeWord? : List Char → List Char → Option (List Char)
  | [], cs => some cs
  | w :: word, c :: cs => if w = c then takeWord? word cs else none
  | _ :: _, [] => none

mutual

/-- Reads a value, blanks before it skipped. `room` is how many levels may still be opened. -/
def readValue : Nat → Nat → List Char → Option (Json × List Char)
  | 0, _, _ => none
  | fuel + 1, room, cs =>
    match skipSpace cs with
    | '[' :: rest =>
      match room with
      | 0 => none
      | room + 1 =>
        match skipSpace rest with
        | ']' :: rest => some (array [], rest)
        | rest => (readItems fuel room rest).map fun (items, rest) => (array items, rest)
    | '\x7b' :: rest =>
      match room with
      | 0 => none
      | room + 1 =>
        match skipSpace rest with
        | '\x7d' :: rest => some (object [], rest)
        | rest => (readMembers fuel room rest).map fun (members, rest) => (object members, rest)
    | '\x22' :: rest => (readString rest).map fun (s, rest) => (string (String.ofList s), rest)
    | 'n' :: rest => (takeWord? "ull".toList rest).map fun rest => (null, rest)
    | 't' :: rest => (takeWord? "rue".toList rest).map fun rest => (bool true, rest)
    | 'f' :: rest => (takeWord? "alse".toList rest).map fun rest => (bool false, rest)
    | '-' :: rest => readMagnitude true rest
    | rest => readMagnitude false rest

/-- Reads items up to the closing bracket. -/
def readItems : Nat → Nat → List Char → Option (List Json × List Char)
  | 0, _, _ => none
  | fuel + 1, room, cs =>
    match readValue fuel room cs with
    | none => none
    | some (j, rest) =>
      match skipSpace rest with
      | ',' :: rest => (readItems fuel room rest).map fun (items, rest) => (j :: items, rest)
      | ']' :: rest => some ([j], rest)
      | _ => none

/-- Reads members up to the closing brace. -/
def readMembers : Nat → Nat → List Char → Option (List (String × Json) × List Char)
  | 0, _, _ => none
  | fuel + 1, room, cs =>
    match skipSpace cs with
    | '\x22' :: rest =>
      match readString rest with
      | none => none
      | some (key, rest) =>
        match skipSpace rest with
        | ':' :: rest =>
          match readValue fuel room rest with
          | none => none
          | some (j, rest) =>
            match skipSpace rest with
            | ',' :: rest => (readMembers fuel room rest).map fun (members, rest) =>
                ((String.ofList key, j) :: members, rest)
            | '\x7d' :: rest => some ([(String.ofList key, j)], rest)
            | _ => none
        | _ => none
    | _ => none

end

/-- How deep arrays and objects may stand in one another. -/
def maxDepth : Nat := 127

/-- Reads a whole text. Every step of the readers takes a character or goes from a list to its
first value, so twice the length is fuel enough. -/
def ofChars? (cs : List Char) : Option Json :=
  match readValue (2 * cs.length + 1) maxDepth cs with
  | some (j, rest) => if (skipSpace rest).isEmpty then some j else none
  | none => none

/-- Reads a whole text. -/
def ofText? (s : String) : Option Json := ofChars? s.toList

end DocQuery.Json
