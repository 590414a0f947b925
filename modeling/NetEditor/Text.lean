-- Text as it is typed: which characters are blank, how a text is cut into lines and a row into
-- tokens, and counts in decimal digits.

namespace NetEditor.Text

/-! ## Blanks -/

/-- The code points with the White_Space property, as closed ranges. -/
def blankRanges : List (Nat × Nat) :=
  [(0x9, 0xD), (0x20, 0x20), (0x85, 0x85), (0xA0, 0xA0), (0x1680, 0x1680), (0x2000, 0x200A),
    (0x2028, 0x2029), (0x202F, 0x202F), (0x205F, 0x205F), (0x3000, 0x3000)]

def isBlank (c : Char) : Bool :=
  blankRanges.any fun range => range.1 ≤ c.toNat && c.toNat ≤ range.2

def trim (text : List Char) : List Char :=
  ((text.dropWhile isBlank).reverse.dropWhile isBlank).reverse

example : (blankRanges.map fun range => range.2 + 1 - range.1).sum = 25 := by decide

/-! ## Cutting -/

/-- A carriage return that stood before the line end belongs to the line end. -/
def dropReturn (line : List Char) : List Char :=
  if line.getLast? = some '\r' then line.dropLast else line

/-- The lines of a text: a line end closes a line, so the text after the last line end is a
line of its own only if there is some. -/
def lines (text : List Char) : List (List Char) :=
  let parts := text.splitOn '\n'
  parts.dropLast.map dropReturn ++ (parts.getLast?.toList.filter (· ≠ []))

/-- The maximal runs of characters that are no separator. -/
def tokens (separates : Char → Bool) (row : List Char) : List (List Char) :=
  (row.splitOnP separates).filter (· ≠ [])

/-! ## Counts -/

def wordMax : Nat := 0xffffffffffffffff

/-- The number whose decimal digits these are. -/
def digitsValue (digits : List Char) : Nat := Nat.ofDigitChars 10 digits 0

def allDigits (digits : List Char) : Bool := digits ≠ [] && digits.all Char.isDigit

/-- Reads a count, with or without a plus sign. -/
def readCount? (text : List Char) : Option Nat :=
  let digits := if text.head? = some '+' then text.tail else text
  if allDigits digits && digitsValue digits ≤ wordMax then some (digitsValue digits) else none

end NetEditor.Text
