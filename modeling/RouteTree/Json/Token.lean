import RouteTree.HexDigit
import RouteTree.Json

/-!
# The tokens of a JSON text

`Token.scan` reads a text character by character.  Between tokens it skips blanks;
inside one it is in a state of its own until the token is complete.  Words and numbers
are complete at the first character that does not belong to them, which is then read
again between tokens.

`Token.text` writes a token.
-/

namespace RouteTree.Json

/-- The smallest parts of a JSON text that carry meaning. -/
inductive Token where
  | openObject
  | closeObject
  | openArray
  | closeArray
  | colon
  | comma
  | null
  | bool (value : Bool)
  | num (literal : String)
  /-- a string, or `none` if half a surrogate pair stands alone in it -/
  | str (text : Option String)
  deriving DecidableEq, Repr, Inhabited

namespace Token

/-! ## Writing -/

/-- The digits of a code unit below 256 as four hexadecimal digits. -/
def hex4 (code : Nat) : List Char :=
  ['0', '0', (code / 16).digitChar, (code % 16).digitChar]

/-- How a character is written inside a string: the quote, the backslash and the
control characters are escaped and nothing else. -/
def escaped (c : Char) : List Char :=
  if c = '"' then ['\\', '"']
  else if c = '\\' then ['\\', '\\']
  else if c = '\x08' then ['\\', 'b']
  else if c = '\t' then ['\\', 't']
  else if c = '\n' then ['\\', 'n']
  else if c = '\x0c' then ['\\', 'f']
  else if c = '\r' then ['\\', 'r']
  else if c.toNat < 0x20 then '\\' :: 'u' :: hex4 c.toNat
  else [c]

/-- A string between quotes. -/
def quoted (text : String) : List Char :=
  '"' :: text.toList.flatMap escaped ++ ['"']

/-- The token as it is written.  Only a string that denotes a text has a written
form. -/
def text : Token → List Char
  | .openObject => ['{']
  | .closeObject => ['}']
  | .openArray => ['[']
  | .closeArray => [']']
  | .colon => [':']
  | .comma => [',']
  | .null => ['n', 'u', 'l', 'l']
  | .bool true => ['t', 'r', 'u', 'e']
  | .bool false => ['f', 'a', 'l', 's', 'e']
  | .num literal => literal.toList
  | .str (some text) => quoted text
  | .str none => []

/-! ## Characters of a string -/

/-- Whether a code is the first half of a surrogate pair. -/
def isHighHalf (code : Nat) : Bool := 0xD800 ≤ code && code < 0xDC00

/-- Whether a code is the second half of a surrogate pair. -/
def isLowHalf (code : Nat) : Bool := 0xDC00 ≤ code && code < 0xE000

/-- The text of a row of codes, in which surrogate pairs count as one character. -/
def ofCodes? : List Nat → Option (List Char)
  | [] => some []
  | code :: rest =>
    if isHighHalf code then
      match rest with
      | low :: rest =>
        if isLowHalf low then
          (ofCodes? rest).map
            (Char.ofNat (0x10000 + (code - 0xD800) * 0x400 + (low - 0xDC00)) :: ·)
        else none
      | [] => none
    else if isLowHalf code then none
    else (ofCodes? rest).map (Char.ofNat code :: ·)

/-- The character that a one-letter escape stands for. -/
def escape? : Char → Option Char
  | '"' => some '"'
  | '\\' => some '\\'
  | '/' => some '/'
  | 'b' => some '\x08'
  | 'f' => some '\x0c'
  | 'n' => some '\n'
  | 'r' => some '\r'
  | 't' => some '\t'
  | _ => none

/-! ## Reading -/

/-- The token that a word is. -/
def ofWord? : List Char → Option Token
  | ['n', 'u', 'l', 'l'] => some .null
  | ['t', 'r', 'u', 'e'] => some (.bool true)
  | ['f', 'a', 'l', 's', 'e'] => some (.bool false)
  | _ => none

/-- The token that a number literal is. -/
def ofNumber? (literal : List Char) : Option Token :=
  (NumberLiteral.ofText? literal).map fun _ => .num (String.ofList literal)

/-- The token that one character is by itself. -/
def ofMark? : Char → Option Token
  | '{' => some .openObject
  | '}' => some .closeObject
  | '[' => some .openArray
  | ']' => some .closeArray
  | ':' => some .colon
  | ',' => some .comma
  | _ => none

/-- Whether a character may stand between tokens. -/
def isBlank (c : Char) : Bool := c = ' ' || c = '\t' || c = '\n' || c = '\r'

/-- Whether a character belongs to the number before it. -/
def continuesNumber (c : Char) : Bool :=
  c.isDigit || c = '+' || c = '-' || c = '.' || c = 'e' || c = 'E'

/-- Where in a token the reader stands.  What has been read of it is held last first. -/
inductive Mode where
  /-- in no token -/
  | between
  /-- in a word -/
  | word (letters : List Char)
  /-- in a number -/
  | number (literal : List Char)
  /-- in a string -/
  | string (codes : List Nat)
  /-- in a string, right behind a backslash -/
  | escape (codes : List Nat)
  /-- in a string, in an escape with so many hexadecimal digits to come -/
  | hex (codes : List Nat) (value : Nat) (missing : Nat)
  deriving DecidableEq, Repr, Inhabited

/-- The tokens read so far, last first, and where the reader stands. -/
structure Scanner where
  tokens : List Token := []
  mode : Mode := .between
  deriving Repr, Inhabited

namespace Scanner

/-- The reader behind one more token. -/
def emit (scanner : Scanner) (token : Token) : Scanner :=
  { tokens := token :: scanner.tokens, mode := .between }

/-- Completes a word or a number that ends here. -/
def finish (scanner : Scanner) : Option Scanner :=
  match scanner.mode with
  | .between => some scanner
  | .word letters => (ofWord? letters.reverse).map scanner.emit
  | .number literal => (ofNumber? literal.reverse).map scanner.emit
  | .string _ | .escape _ | .hex .. => none

/-- Reads a character between tokens. -/
def start (scanner : Scanner) (c : Char) : Option Scanner :=
  if isBlank c then some scanner
  else if c = '"' then some { scanner with mode := .string [] }
  else if c.isDigit || c = '-' then some { scanner with mode := .number [c] }
  else if c.isAlpha then some { scanner with mode := .word [c] }
  else (ofMark? c).map scanner.emit

/-- Reads a character. -/
def step (scanner : Scanner) (c : Char) : Option Scanner :=
  match scanner.mode with
  | .between => scanner.start c
  | .word letters =>
    if c.isAlpha then some { scanner with mode := .word (c :: letters) }
    else scanner.finish.bind (·.start c)
  | .number literal =>
    if continuesNumber c then some { scanner with mode := .number (c :: literal) }
    else scanner.finish.bind (·.start c)
  | .string codes =>
    if c = '"' then
      some (scanner.emit (.str ((ofCodes? codes.reverse).map String.ofList)))
    else if c = '\\' then some { scanner with mode := .escape codes }
    else if c.toNat < 0x20 then none
    else some { scanner with mode := .string (c.toNat :: codes) }
  | .escape codes =>
    if c = 'u' then some { scanner with mode := .hex codes 0 3 }
    else (escape? c).map fun c => { scanner with mode := .string (c.toNat :: codes) }
  | .hex codes value missing =>
    (hexDigit? c).map fun digit =>
      match missing with
      | 0 => { scanner with mode := .string ((16 * value + digit) :: codes) }
      | missing + 1 => { scanner with mode := .hex codes (16 * value + digit) missing }

end Scanner

/-- The tokens of a text. -/
def scan (text : List Char) : Option (List Token) := do
  let scanner ← text.foldlM Scanner.step {}
  let scanner ← scanner.finish
  return scanner.tokens.reverse

end Token
end RouteTree.Json
