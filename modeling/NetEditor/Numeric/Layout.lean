-- How a floating point number is laid out once its digits are known: the place of the point,
-- the zeros around it, and the power of ten where one is written.
import NetEditor.Numeric.Rounding
import NetEditor.Numeric.Shortest

namespace NetEditor

/-- The choices that two ways of writing numbers may make differently. -/
structure NumberStyle where
  /-- Of two shortest decimals equally near, the upper one is written; otherwise the even
  one. -/
  upward : Bool
  /-- Whether a number whose first digit stands for this power of ten is written without a
  power of ten. -/
  plain : Int → Bool
  /-- A whole number is followed by a point and a zero. -/
  wholePoint : Bool

namespace NumberStyle

/-- The way of messages: always plain, and whole numbers like counts. -/
def message : NumberStyle := ⟨true, fun _ => true, false⟩

def zeros (n : Nat) : List Char := List.replicate n '0'

def plainText (style : NumberStyle) (digits : List Char) : (power : Int) → List Char
  | .ofNat k => digits ++ zeros k ++ (if style.wholePoint then ['.', '0'] else [])
  | .negSucc k =>
    let places := k + 1
    if places < digits.length then
      digits.take (digits.length - places) ++ '.' :: digits.drop (digits.length - places)
    else '0' :: '.' :: zeros (places - digits.length) ++ digits

/-- One digit before the point, and a power of ten that always shows its sign. -/
def powerText (digits : List Char) (lead : Int) : List Char :=
  let (first, others) := digits.splitAt 1
  first ++ (if others = [] then [] else '.' :: others) ++
    ('e' :: (if lead < 0 then '-' else '+') :: Nat.toDigits 10 lead.natAbs)

def magnitudeText (style : NumberStyle) (f : Format) (steps : Nat) : List Char :=
  if steps = 0 then style.plainText ['0'] 0
  else
    let (value, power) := f.shortest style.upward steps
    let digits := Nat.toDigits 10 value
    let lead := power + digits.length - 1
    if style.plain lead then style.plainText digits power else powerText digits lead

end NumberStyle

namespace Binary

variable {f : Format}

def signText (negative : Bool) : List Char := if negative then ['-'] else []

def text (style : NumberStyle) : Binary f → String
  | .nan => "NaN"
  | .infinite s => String.ofList (signText s ++ ['i', 'n', 'f'])
  | .finite s n _ => String.ofList (signText s ++ style.magnitudeText f n)

def messageText (x : Binary f) : String := x.text .message

example : (ofRatio .double false 1 10).messageText = "0.1" := by decide +kernel

example : (ofWhole .double true (Nat.pow 10 21)).messageText = "-1000000000000000000000" := by
  decide +kernel

example : (ofRatio .double false 1 10000000).messageText = "0.0000001" := by decide +kernel

/-- A quarter between two tenths that are equally near goes up. -/
example : (ofRatio .single false 8388609 4).messageText = "2097152.3" := by decide +kernel

end Binary

end NetEditor
