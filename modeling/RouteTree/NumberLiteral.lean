/-!
# Number literals

A number is written by its digits, with a point and an exponent if need be.  Only one
thing about its value matters here: whether a double can hold it.

There are two ways to read a literal as a double, and they part near the largest finite
one.  The careful way takes the double nearest to the number (`isFinite`).  The quick
way multiplies two doubles: one for the digits that fit in 64 bits, and one for the
power of ten that they are scaled by (`isFiniteProduct`).
-/

namespace RouteTree

/-- The parts of a number literal: its digits before and after the point, and its
exponent. -/
structure NumberLiteral where
  negative : Bool
  whole : List Char
  fraction : List Char
  /-- whether there is an exponent below zero, and its digits -/
  exponent : Option (Bool × List Char)
  deriving DecidableEq, Repr

namespace NumberLiteral

/-! ## Parts -/

/-- The leading digits, at least one, and what follows. -/
def digits? (text : List Char) : Option (List Char × List Char) :=
  match text.takeWhile Char.isDigit with
  | [] => none
  | digits => some (digits, text.dropWhile Char.isDigit)

/-- The digits before the point: a zero alone, or digits that do not start with
zero. -/
def whole? : List Char → Option (List Char × List Char)
  | '0' :: rest => some (['0'], rest)
  | text => digits? text

/-- The digits after a point, if there is one. -/
def fraction? : List Char → Option (List Char × List Char)
  | '.' :: rest => digits? rest
  | text => some ([], text)

/-- The sign and the digits of an exponent. -/
def signedDigits? : List Char → Option (Bool × List Char)
  | '-' :: rest => closed true rest
  | '+' :: rest => closed false rest
  | rest => closed false rest
where
  closed (negative : Bool) (text : List Char) : Option (Bool × List Char) :=
    match digits? text with
    | some (digits, []) => some (negative, digits)
    | _ => none

/-- The exponent that ends a literal, if there is one. -/
def exponent? : List Char → Option (Option (Bool × List Char))
  | [] => some none
  | c :: rest => if c = 'e' ∨ c = 'E' then (signedDigits? rest).map some else none

/-- Reads a literal that is complete. -/
def ofText? (text : List Char) : Option NumberLiteral := do
  let (negative, text) := match text with
    | '-' :: rest => (true, rest)
    | text => (false, text)
  let (whole, text) ← whole? text
  let (fraction, text) ← fraction? text
  let exponent ← exponent? text
  return { negative, whole, fraction, exponent }

/-! ## Values -/

/-- The number that is written with one more digit. -/
def appendDigit (value : Nat) (digit : Char) : Nat := 10 * value + (digit.toNat - '0'.toNat)

/-- The number that a row of digits denotes. -/
def ofDigits (digits : List Char) : Nat := digits.foldl appendDigit 0

/-- The exponent as it is written, zero if there is none. -/
def scale (literal : NumberLiteral) : Int :=
  match literal.exponent with
  | none => 0
  | some (true, digits) => -ofDigits digits
  | some (false, digits) => ofDigits digits

/-! ## The range of a double -/

/-- The least magnitude that rounds to infinity in double precision: half a unit above
the largest finite double. -/
def overflowBound : Nat := Nat.pow 2 1024 - Nat.pow 2 970

/-- Whether the double nearest to the number is finite.  The number of digits decides
unless the magnitude has exactly 309 of them. -/
def isFinite (literal : NumberLiteral) : Bool :=
  let mantissa := ofDigits (literal.whole ++ literal.fraction)
  let exponent := literal.scale - literal.fraction.length
  let length := (Nat.toDigits 10 mantissa).length + exponent
  if mantissa = 0 ∨ length < 309 then true
  else if length > 309 then false
  else if exponent ≥ 0 then mantissa * Nat.pow 10 exponent.toNat < overflowBound
  else mantissa < overflowBound * Nat.pow 10 (-exponent).toNat

/-- The double nearest to a natural number, as if there were no largest one: of its
binary digits 53 are kept, and of two neighbours at the same distance the even one is
taken. -/
def nearestDouble (n : Nat) : Nat :=
  let unit := Nat.pow 2 (n.log2 + 1 - 53)
  let kept := n / unit
  let rest := n % unit
  if 2 * rest < unit ∨ (2 * rest = unit ∧ kept % 2 = 0) then kept * unit
  else (kept + 1) * unit

/-- The number of the digits of `value` and of as many further digits as fit in 64 bits,
and the digits that are left. -/
def fill (value : Nat) : List Char → Nat × List Char
  | [] => (value, [])
  | digit :: rest =>
    if appendDigit value digit < Nat.pow 2 64 then fill (appendDigit value digit) rest
    else (value, digit :: rest)

/-- Whether the product of the digits that fit in 64 bits and of the power of ten that
scales them is a finite double.  Digits before the point that do not fit are counted,
and digits behind it that do not fit are dropped. -/
def isFiniteProduct (literal : NumberLiteral) : Bool :=
  let (leading, uncounted) := fill 0 literal.whole
  let (significand, dropped) := fill leading literal.fraction
  let exponent :=
    literal.scale + uncounted.length - (literal.fraction.length - dropped.length : Nat)
  if significand = 0 ∨ exponent < 0 then true
  else if exponent > 308 then false
  else nearestDouble significand * nearestDouble (Nat.pow 10 exponent.toNat) < overflowBound

end NumberLiteral
end RouteTree
