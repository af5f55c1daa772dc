import RouteTree.HexDigit

/-!
# Strings of a TOML text

A string is written between quotes.  Single quotes take its text as it stands; between
double quotes a backslash escapes.  Three quotes on either side let it go over several
lines.

A string is read in two passes: the first finds its end, the second takes the escapes
out.  A newline is a line feed, or a carriage return and a line feed, and stands in a
string as it is written.
-/

namespace RouteTree.Toml

/-- Whether a character is a control character that no text may hold. -/
def isForbidden (c : Char) : Bool :=
  (c.toNat < 0x20 && c ≠ '\t' && c ≠ '\n') || c.toNat = 0x7F

/-- Whether a text starts with a control character that no text may hold.  A carriage
return is part of a newline if a line feed follows. -/
def startsForbidden : List Char → Bool
  | '\r' :: '\n' :: _ => false
  | c :: _ => isForbidden c
  | [] => false

/-! ## The end of a string -/

/-- What stands before the closing quote of a string on one line, and what follows. -/
def untilQuote (quote : Char) (escapes : Bool) : List Char → Option (List Char × List Char)
  | [] => none
  | c :: rest =>
    if c = quote then some ([], rest)
    else if isForbidden c || c = '\n' then none
    else if escapes && c = '\\' then
      match rest with
      | [] => none
      | escaped :: rest =>
        if escaped = '\n' then none
        else (untilQuote quote escapes rest).map fun (body, rest) => (c :: escaped :: body, rest)
    else (untilQuote quote escapes rest).map fun (body, rest) => (c :: body, rest)

/-- What stands before the three closing quotes of a string, and what follows.  One or
two further quotes right before them belong to the string.  `quotes` counts the quotes
just read. -/
def untilQuotes (quote : Char) (escapes : Bool) (quotes : Nat) :
    List Char → Option (List Char × List Char)
  | [] => closed quotes []
  | c :: rest =>
    if c = quote then untilQuotes quote escapes (quotes + 1) rest
    else if quotes ≥ 3 then closed quotes (c :: rest)
    else if startsForbidden (c :: rest) then none
    else if escapes && c = '\\' then
      match rest with
      | [] => none
      | escaped :: rest => (untilQuotes quote escapes 0 rest).map fun (body, rest) =>
        (List.replicate quotes quote ++ c :: escaped :: body, rest)
    else (untilQuotes quote escapes 0 rest).map fun (body, rest) =>
      (List.replicate quotes quote ++ c :: body, rest)
where
  /-- The end of the string, if the quotes just read can be that. -/
  closed (quotes : Nat) (rest : List Char) : Option (List Char × List Char) :=
    if 3 ≤ quotes ∧ quotes ≤ 5 then some (List.replicate (quotes - 3) quote, rest) else none

/-! ## Escapes -/

/-- The character with a hexadecimal code. -/
def charOfHex? (digits : List Char) : Option Char := do
  let code ← digits.foldlM (fun code digit => (16 * code + ·) <$> hexDigit? digit) 0
  if code.isValidChar then some (Char.ofNat code) else none

/-- The character that a one-letter escape stands for. -/
def escape? : Char → Option Char
  | 'b' => some '\x08'
  | 't' => some '\t'
  | 'n' => some '\n'
  | 'f' => some '\x0c'
  | 'r' => some '\r'
  | 'e' => some '\x1b'
  | '"' => some '"'
  | '\\' => some '\\'
  | _ => none

/-- The text without the newline that it may start with. -/
def dropNewline : List Char → List Char
  | '\n' :: rest => rest
  | '\r' :: '\n' :: rest => rest
  | text => text

/-- Whether only blanks stand before the next newline. -/
def endsLine : List Char → Bool
  | [] => false
  | '\n' :: _ => true
  | '\r' :: '\n' :: _ => true
  | c :: rest => (c = ' ' || c = '\t') && endsLine rest

/-- Takes the escapes out of a text.  A backslash at the end of a line joins the text
with the next character that is no blank; `joining` says that this is going on. -/
def unescape (joining : Bool) : List Char → Option (List Char)
  | [] => some []
  | '\\' :: 'x' :: a :: b :: rest => do
    return (← charOfHex? [a, b]) :: (← unescape false rest)
  | '\\' :: 'u' :: a :: b :: c :: d :: rest => do
    return (← charOfHex? [a, b, c, d]) :: (← unescape false rest)
  | '\\' :: 'U' :: a :: b :: c :: d :: e :: f :: g :: h :: rest => do
    return (← charOfHex? [a, b, c, d, e, f, g, h]) :: (← unescape false rest)
  | '\\' :: c :: rest =>
    if endsLine (c :: rest) then unescape true rest
    else do return (← escape? c) :: (← unescape false rest)
  | c :: rest =>
    if joining && (c = ' ' || c = '\t' || c = '\r' || c = '\n') then unescape true rest
    else (unescape false rest).map (c :: ·)

/-! ## Whole strings -/

/-- Reads a string on one line, from its first quote on. -/
def lineString? : List Char → Option (String × List Char)
  | '"' :: rest => do
    let (body, rest) ← untilQuote '"' true rest
    return (String.ofList (← unescape false body), rest)
  | '\'' :: rest => do
    let (body, rest) ← untilQuote '\'' false rest
    return (String.ofList body, rest)
  | _ => none

/-- Reads a string, from its first quote on. -/
def string? : List Char → Option (String × List Char)
  | '"' :: '"' :: '"' :: rest => do
    let (body, rest) ← untilQuotes '"' true 0 (dropNewline rest)
    return (String.ofList (← unescape false body), rest)
  | '\'' :: '\'' :: '\'' :: rest => do
    let (body, rest) ← untilQuotes '\'' false 0 (dropNewline rest)
    return (String.ofList body, rest)
  | text => lineString? text

end RouteTree.Toml
