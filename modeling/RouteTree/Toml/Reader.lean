import RouteTree.Toml.Document
import RouteTree.Toml.Literal
import RouteTree.Toml.Text

/-!
# Reading a TOML text

A text is read line by line: a line is empty, opens a table, or gives a key a value.
Comments run to the end of a line.  A value may go on over several lines between
brackets, braces or triple quotes, but a key may not.

The result is one JSON value.  A date is an object without members in it, for it has
none of the fields that a record asks for, and a number out of range is undefined: it
does no harm unless it is read.
-/

namespace RouteTree.Toml

/-- A reader takes the start of a text and returns what it has read and the rest. -/
abbrev Reader (α : Type) := List Char → Option (α × List Char)

/-! ## What carries no meaning -/

/-- Whether a character is a blank within a line. -/
def isBlank (c : Char) : Bool := c = ' ' || c = '\t'

/-- The text behind the blanks at its start. -/
def skipBlanks (text : List Char) : List Char := text.dropWhile isBlank

/-- The text behind blanks, newlines and comments. -/
def skipSpace (inComment : Bool) : List Char → Option (List Char)
  | [] => some []
  | '\r' :: '\n' :: rest => skipSpace false rest
  | c :: rest =>
    if c = '\n' then skipSpace false rest
    else if inComment then if isForbidden c then none else skipSpace true rest
    else if isBlank c then skipSpace false rest
    else if c = '#' then skipSpace true rest
    else some (c :: rest)

/-- The text behind the end of the line, before which only blanks and a comment may
stand. -/
def endLine (inComment : Bool) : List Char → Option (List Char)
  | [] => some []
  | '\r' :: '\n' :: rest => some rest
  | c :: rest =>
    if c = '\n' then some rest
    else if inComment then if isForbidden c then none else endLine true rest
    else if isBlank c then endLine false rest
    else if c = '#' then endLine true rest
    else none

/-! ## Keys -/

/-- Whether a character may stand in a key without quotes. -/
def isBare (c : Char) : Bool := c.isAlphanum || c = '_' || c = '-'

/-- Reads one part of a key. -/
def keyPart? (text : List Char) : Option (String × List Char) :=
  match text.takeWhile isBare with
  | [] => lineString? text
  | name => some (String.ofList name, text.dropWhile isBare)

/-- Reads the parts of a key, at most so many. -/
def keyWithin? : Nat → Reader (List String)
  | 0, _ => none
  | parts + 1, text => do
    let (name, rest) ← keyPart? (skipBlanks text)
    match skipBlanks rest with
    | '.' :: rest => do
      let (path, rest) ← keyWithin? parts rest
      return (name :: path, rest)
    | rest => return ([name], rest)

/-- How many parts a key may have. -/
def maxKeyParts : Nat := 80

/-- Reads a key. -/
def key? (text : List Char) : Option (List String × List Char) :=
  keyWithin? maxKeyParts text

/-! ## Values -/

/-- How deep arrays and inline tables may nest. -/
def maxNesting : Nat := 80

/-- Whether a character may stand in a word. -/
def isWordChar (c : Char) : Bool := isBare c || c = '+' || c = '.' || c = ':'

/-- What is kept of a number: nothing but whether it is in range. -/
def numberValue (inRange : Bool) : Json := if inRange then .num "0" else .undefined

/-- The value that a word stands for. -/
def wordValue? (word : List Char) : Option Json :=
  if word = ['t', 'r', 'u', 'e'] then some (.bool true)
  else if word = ['f', 'a', 'l', 's', 'e'] then some (.bool false)
  else if let some n := integer? word then some (numberValue (fitsInteger n))
  else if isFloat word then some (numberValue (fitsFloat word))
  else if isDateTime word then some (.obj [])
  else none

/-- Reads a word.  A blank behind a date may join it with a time. -/
def word? (text : List Char) : Option (Json × List Char) :=
  let word := text.takeWhile isWordChar
  let rest := text.dropWhile isWordChar
  match rest with
  | ' ' :: c :: _ =>
    if isDate word && c.isDigit then
      let time := rest.tail.takeWhile isWordChar
      (wordValue? (word ++ ' ' :: time)).map (·, rest.tail.dropWhile isWordChar)
    else (wordValue? word).map (·, rest)
  | _ => (wordValue? word).map (·, rest)

/-- Reads the items of an array up to its bracket, at most so many. -/
def itemsWithin? (item : Reader Json) : Nat → Reader (List Json)
  | 0, _ => none
  | count + 1, text => do
    match ← skipSpace false text with
    | ']' :: rest => return ([], rest)
    | text =>
      let (value, rest) ← item text
      match ← skipSpace false rest with
      | ']' :: rest => return ([value], rest)
      | ',' :: rest => do
        let (values, rest) ← itemsWithin? item count rest
        return (value :: values, rest)
      | _ => none

/-- Reads the members of an inline table up to its brace, at most so many, into the
members read before. -/
def membersWithin? (item : Reader Json) : Nat → Members → Reader Members
  | 0, _, _ => none
  | count + 1, members, text => do
    match ← skipSpace false text with
    | '}' :: rest => return (members, rest)
    | text =>
      let (path, rest) ← key? text
      match ← skipSpace false rest with
      | '=' :: rest =>
        let (value, rest) ← item (← skipSpace false rest)
        let members ← members.define value path
        match ← skipSpace false rest with
        | '}' :: rest => return (members, rest)
        | ',' :: rest => membersWithin? item count members rest
        | _ => none
      | _ => none

/-- Reads a value in which arrays and inline tables nest so deep. -/
def value? (nesting : Nat) (text : List Char) : Option (Json × List Char) :=
  match text, nesting with
  | '[' :: rest, nesting + 1 => do
    let (items, rest) ← itemsWithin? (value? nesting) (rest.length + 1) rest
    return (.arr items, rest)
  | '{' :: rest, nesting + 1 => do
    let (members, rest) ← membersWithin? (value? nesting) (rest.length + 1) [] rest
    return (.obj (membersToJson members), rest)
  | c :: rest, _ =>
    if c = '"' || c = '\'' then (string? (c :: rest)).map fun (text, rest) => (.str text, rest)
    else word? (c :: rest)
  | [], _ => none

/-! ## Lines -/

/-- What has been read of a document: its members, and the path of the table that is
open. -/
structure Progress where
  members : Members := []
  path : List String := []
  deriving Inhabited

namespace Progress

/-- Opens the table of a header. -/
def openTable (progress : Progress) (path : List String) : Option Progress := do
  let name ← path.getLast?
  let members ← progress.members.change (Members.openTable name) path.dropLast
  return { members, path }

/-- Opens one more table of a list. -/
def addTable (progress : Progress) (path : List String) : Option Progress := do
  let name ← path.getLast?
  let members ← progress.members.change (Members.addTable name) path.dropLast
  return { members, path }

/-- Gives a key of the open table a value. -/
def define (progress : Progress) (key : List String) (value : Json) : Option Progress := do
  let members ← progress.members.change (·.define value key) progress.path
  return { progress with members }

end Progress

/-- Reads a line that is not empty. -/
def line? (progress : Progress) : Reader Progress
  | '[' :: '[' :: rest => do
    match ← key? rest with
    | (path, ']' :: ']' :: rest) => return (← progress.addTable path, rest)
    | _ => none
  | '[' :: rest => do
    match ← key? rest with
    | (path, ']' :: rest) => return (← progress.openTable path, rest)
    | _ => none
  | text => do
    match ← key? text with
    | (path, '=' :: rest) =>
      let (value, rest) ← value? maxNesting (skipBlanks rest)
      return (← progress.define path value, rest)
    | _ => none

/-- Reads the lines of a text, at most so many. -/
def linesWithin? : Nat → Progress → List Char → Option Progress
  | 0, _, _ => none
  | count + 1, progress, text => do
    match ← skipSpace false text with
    | [] => return progress
    | text =>
      let (progress, rest) ← line? progress text
      linesWithin? count progress (← endLine false rest)

/-- The text without the mark that may stand before its first character. -/
def dropByteOrderMark : List Char → List Char
  | '\ufeff' :: rest => rest
  | text => text

/-- The value of a TOML text. -/
def parse? (text : String) : Option Json := do
  let text := dropByteOrderMark text.toList
  let progress ← linesWithin? (text.length + 1) {} text
  return .obj (membersToJson progress.members)

end RouteTree.Toml
