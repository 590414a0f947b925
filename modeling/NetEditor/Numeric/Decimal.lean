-- Decimal fractions as people type them, and the floating point number each one names: the
-- one nearest to the exact value.
import NetEditor.Numeric.Rounding
import NetEditor.Text

namespace NetEditor

/-- A decimal fraction: the digits without their point, times a power of ten. -/
structure Decimal where
  negative : Bool
  digits : Nat
  exponent : Int
deriving DecidableEq, Repr

namespace Decimal

/-- The value is below ten to this power, and zero or not below a tenth of that. -/
def magnitude (d : Decimal) : Int := (Nat.toDigits 10 d.digits).length + d.exponent

/-- The nearest number of the format. Values past the width of the format, and values that
do not reach half a step, are settled by their magnitude alone. -/
def round (f : Format) (d : Decimal) : Binary f :=
  if d.digits = 0 then .zero f d.negative
  else if d.magnitude > f.width then .infinite d.negative
  else if d.magnitude + f.places < 0 then .zero f d.negative
  else match d.exponent with
    | .ofNat k => .ofRatio f d.negative (d.digits * Nat.pow 10 k) 1
    | .negSucc k => .ofRatio f d.negative d.digits (Nat.pow 10 (k + 1))

def readSign : List Char → Bool × List Char
  | '-' :: rest => (true, rest)
  | '+' :: rest => (false, rest)
  | rest => (false, rest)

/-- Nothing, or the letter e with a signed whole number that ends the text. -/
def readExponent? : List Char → Option Int
  | [] => some 0
  | c :: rest =>
    let (negative, digits) := readSign rest
    if (c = 'e' || c = 'E') && Text.allDigits digits then
      some (if negative then -(Text.digitsValue digits : Int) else Text.digitsValue digits)
    else none

def readFraction : List Char → List Char × List Char
  | '.' :: rest => (rest.takeWhile Char.isDigit, rest.dropWhile Char.isDigit)
  | rest => ([], rest)

/-- Reads a sign, digits with an optional point among them or at either end, and an
exponent. -/
def read? (text : List Char) : Option Decimal :=
  let (negative, body) := readSign text
  let whole := body.takeWhile Char.isDigit
  let (fraction, rest) := readFraction (body.dropWhile Char.isDigit)
  if whole = [] && fraction = [] then none
  else (readExponent? rest).map fun exponent =>
    ⟨negative, Text.digitsValue (whole ++ fraction), exponent - fraction.length⟩

end Decimal

/-- Reads a typed number: a decimal fraction, or the name of infinity or of `nan` in any
letter case, after an optional sign. -/
def Binary.read? (f : Format) (text : List Char) : Option (Binary f) :=
  let (negative, body) := Decimal.readSign text
  let word := String.ofList (body.map Char.toLower)
  if word = "nan" then some .nan
  else if word = "inf" || word = "infinity" then some (.infinite negative)
  else (Decimal.read? text).map (Decimal.round f)

end NetEditor
