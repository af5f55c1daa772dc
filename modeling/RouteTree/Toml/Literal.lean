import RouteTree.HexDigit
import RouteTree.NumberLiteral

/-!
# Numbers and dates of a TOML text

A value that is neither quoted nor bracketed is a word: a Boolean, a number, or a date
or time.  Nothing here depends on which number or date it is, so a literal is only
recognised.  A number may be well formed and still be out of range: an integer has at
most 128 bits, and the double nearest to a number with a point or an exponent is finite.
-/

namespace RouteTree.Toml

/-! ## Numbers -/

/-- Whether a text is digits with single underscores between them. -/
def isDigits (isDigit : Char → Bool) : List Char → Bool
  | [] => false
  | [c] => isDigit c
  | c :: '_' :: rest => isDigit c && isDigits isDigit rest
  | c :: rest => isDigit c && isDigits isDigit rest

/-- The text without a sign. -/
def dropSign : List Char → List Char
  | '+' :: rest => rest
  | '-' :: rest => rest
  | text => text

/-- Whether a text is a decimal number without a sign, a point and an exponent. -/
def isWhole (text : List Char) : Bool :=
  isDigits Char.isDigit text && (text.head? ≠ some '0' || text.length = 1)

/-- The number that digits denote in a base.  Underscores between them are passed
over. -/
def ofDigits (base : Nat) (digits : List Char) : Nat :=
  (digits.filterMap hexDigit?).foldl (base * · + ·) 0

/-- The integer that a text denotes. -/
def integer? : List Char → Option Int
  | '0' :: 'x' :: rest =>
    if isDigits (fun c => (hexDigit? c).isSome) rest then some (ofDigits 16 rest) else none
  | '0' :: 'o' :: rest =>
    if isDigits (fun c => '0' ≤ c && c ≤ '7') rest then some (ofDigits 8 rest) else none
  | '0' :: 'b' :: rest =>
    if isDigits (fun c => c = '0' || c = '1') rest then some (ofDigits 2 rest) else none
  | '-' :: rest => if isWhole rest then some (-ofDigits 10 rest) else none
  | '+' :: rest => if isWhole rest then some (ofDigits 10 rest) else none
  | text => if isWhole text then some (ofDigits 10 text) else none

/-- Whether an integer can be written with 128 bits, of which one may be a sign. -/
def fitsInteger (n : Int) : Bool := -Int.pow 2 127 ≤ n && n < Int.pow 2 128

/-- The text before and behind the first character that satisfies a test. -/
def cutAt (isCut : Char → Bool) (text : List Char) : List Char × Option (List Char) :=
  (text.takeWhile (!isCut ·), (text.dropWhile (!isCut ·)).tail?)

/-- Whether a text is a number with a point or an exponent, or one of the words for what
is no finite number. -/
def isFloat (text : List Char) : Bool :=
  let text := dropSign text
  let (mantissa, exponent) := cutAt (fun c => c = 'e' || c = 'E') text
  let (whole, fraction) := cutAt (· = '.') mantissa
  text = ['i', 'n', 'f'] || text = ['n', 'a', 'n'] ||
    (isWhole whole && (fraction.isSome || exponent.isSome) &&
      fraction.all (isDigits Char.isDigit) &&
      exponent.all (fun text => isDigits Char.isDigit (dropSign text)))

/-- Whether the double nearest to a number is finite, or one of the words is meant that
stand for what is no finite number. -/
def fitsFloat (text : List Char) : Bool :=
  match NumberLiteral.ofText? ((dropSign text).filter (· ≠ '_')) with
  | some literal => literal.isFinite
  | none => true

/-! ## Dates and times -/

/-- The number that two digits denote. -/
def twoDigits? : List Char → Option Nat
  | [a, b] =>
    if a.isDigit && b.isDigit then
      some (10 * (a.toNat - '0'.toNat) + (b.toNat - '0'.toNat))
    else none
  | _ => none

/-- Whether two digits denote a number of a range. -/
def twoDigitsIn (low high : Nat) (text : List Char) : Bool :=
  (twoDigits? text).any fun n => low ≤ n && n ≤ high

/-- How many days a month has. -/
def daysIn (year month : Nat) : Nat :=
  if month = 2 then
    if year % 4 = 0 ∧ (year % 100 ≠ 0 ∨ year % 400 = 0) then 29 else 28
  else if month = 4 ∨ month = 6 ∨ month = 9 ∨ month = 11 then 30
  else 31

/-- Whether a text is a day of the calendar. -/
def isDate : List Char → Bool
  | [a, b, c, d, '-', m, n, '-', x, y] =>
    match twoDigits? [a, b], twoDigits? [c, d], twoDigits? [m, n] with
    | some century, some year, some month =>
      1 ≤ month && month ≤ 12 && twoDigitsIn 1 (daysIn (100 * century + year) month) [x, y]
    | _, _, _ => false
  | _ => false

/-- Whether a text is a time of day; its seconds may be missing, and may have a
fraction. -/
def isTime : List Char → Bool
  | a :: b :: ':' :: c :: d :: rest =>
    twoDigitsIn 0 23 [a, b] && twoDigitsIn 0 59 [c, d] &&
      match rest with
      | [] => true
      | ':' :: e :: f :: fraction =>
        twoDigitsIn 0 60 [e, f] &&
          match fraction with
          | [] => true
          | '.' :: digits => !digits.isEmpty && digits.all Char.isDigit
          | _ => false
      | _ => false
  | _ => false

/-- Whether a text is the distance of a clock from universal time. -/
def isOffset : List Char → Bool
  | ['Z'] => true
  | ['z'] => true
  | [sign, a, b, ':', c, d] =>
    (sign = '+' || sign = '-') && twoDigitsIn 0 23 [a, b] && twoDigitsIn 0 59 [c, d]
  | _ => false

/-- Whether a text is a time of day that may carry an offset. -/
def isTimeWithOffset (text : List Char) : Bool :=
  let isMark (c : Char) : Bool := c = 'Z' || c = 'z' || c = '+' || c = '-'
  let offset := text.dropWhile (!isMark ·)
  isTime (text.takeWhile (!isMark ·)) && (offset.isEmpty || isOffset offset)

/-- Whether a text is a date, a time, or both. -/
def isDateTime (text : List Char) : Bool :=
  let date := text.take 10
  isTime text || isDate text ||
    (isDate date &&
      match text.drop 10 with
      | 'T' :: time => isTimeWithOffset time
      | 't' :: time => isTimeWithOffset time
      | ' ' :: time => isTimeWithOffset time
      | _ => false)

end RouteTree.Toml
