-- Numerals of JSON documents and the numbers they stand for. A whole number that fits a word is
-- kept exactly. Any other numeral is read fast: its leading digits, as many as fit a word,
-- are rounded to a double, which is then multiplied or divided by a power of ten and rounded
-- again.
import NetEditor.Json.Basic
import NetEditor.Numeric.Decimal

namespace NetEditor.Json

/-- A numeral as written. Without a fraction and without an exponent it is a whole one. -/
structure Numeral where
  negative : Bool
  whole : List Char
  fraction : List Char
  exponent : Option Int
deriving DecidableEq, Repr

namespace Numeral

def isWholePart (digits : List Char) : Bool :=
  Text.allDigits digits && (digits.length = 1 || digits.head? ≠ some '0')

/-- Reads a numeral: no plus sign, no leading zeros, digits on both sides of the point. -/
def read? (text : List Char) : Option Numeral :=
  let (negative, body) := if text.head? = some '-' then (true, text.tail) else (false, text)
  let whole := body.takeWhile Char.isDigit
  let rest := body.dropWhile Char.isDigit
  let (fraction, tail) := Decimal.readFraction rest
  if !isWholePart whole || (rest.head? = some '.' && fraction = []) then none
  else if tail = [] then some ⟨negative, whole, fraction, none⟩
  else (Decimal.readExponent? tail).map fun e => ⟨negative, whole, fraction, some e⟩

/-- Takes digits behind a number for as long as the longer number fits a word; also gives the
digits left over. -/
def takeWord (n : Nat) : List Char → Nat × List Char
  | [] => (n, [])
  | c :: rest =>
    let longer := Nat.ofDigitChars 10 [c] n
    if longer ≤ Text.wordMax then takeWord longer rest else (n, c :: rest)

/-- The leading digits that fit a word and the power of ten behind them. Digits of the whole
part that do not fit still count as places, digits of the fraction that do not fit are
dropped. -/
def leading (n : Numeral) : Nat × Int :=
  let (whole, beyond) := takeWord 0 n.whole
  let (value, dropped) := takeWord whole n.fraction
  (value, beyond.length - (n.fraction.length - dropped.length : Nat) + n.exponent.getD 0)

def largestPower : Nat := 308

def tenPower (k : Nat) : Nat := Format.double.ofWhole (Nat.pow 10 k)

/-- The number that leading digits and their power of ten stand for. A larger power than the
largest is out of range at once; a smaller one is divided out in two parts, and below two of
them nothing is left. -/
def scaled (negative : Bool) (value : Nat) (power : Int) : Double :=
  let steps := Format.double.ofWhole value
  match power with
  | .ofNat k =>
    if value = 0 then .zero .double negative
    else if largestPower < k then .infinite negative
    else .ofSteps .double negative (Format.double.product steps (tenPower k))
  | .negSucc j =>
    let k := j + 1
    if k ≤ largestPower then
      .ofSteps .double negative (Format.double.quotient steps (tenPower k))
    else if k ≤ 2 * largestPower then
      .ofSteps .double negative (Format.double.quotient
        (Format.double.quotient steps (tenPower largestPower)) (tenPower (k - largestPower)))
    else .zero .double negative

/-- The number of a numeral. Minus zero is no whole number, and a numeral past the range of
the double format has no number. -/
def number? (n : Numeral) : Option Number :=
  let value := Text.digitsValue n.whole
  if n.fraction = [] && n.exponent = none && !n.negative && value ≤ Text.wordMax then
    some (.whole value)
  else if n.fraction = [] && n.exponent = none && n.negative && 0 < value &&
      value ≤ 0x8000000000000000 then
    some (.whole (-value))
  else
    let (leading, power) := n.leading
    let x := scaled n.negative leading power
    if finite : x.isFinite then some (.double x finite) else none

end Numeral

end NetEditor.Json
