-- JSON values. Whole numbers are kept apart from floating point ones, and every number is finite.
-- An object holds its members in the order in which they are written; the members of one that
-- was read from a text are a dictionary.
import NetEditor.Dictionary
import NetEditor.Numeric.Rounding

namespace NetEditor

namespace Json

/-- A number. Those read from a text are whole or double; single ones are only written. -/
inductive Number
  | whole (n : Int)
  | double (x : Double) (finite : x.isFinite = true)
  | single (x : Single) (finite : x.isFinite = true)
deriving DecidableEq

namespace Number

def toDouble : Number → Double
  | .whole n => .ofWhole .double (n < 0) n.natAbs
  | .double x _ => x
  | .single x _ => x.widen

/-- Whole numbers are rounded once, straight to the shorter format. -/
def toSingle : Number → Single
  | .whole n => .ofWhole .single (n < 0) n.natAbs
  | .double x _ => x.narrow
  | .single x _ => x

end Number

end Json

inductive Json
  | null
  | bool (b : Bool)
  | number (n : Json.Number)
  | text (s : String)
  | array (items : List Json)
  | object (fields : List (String × Json))

namespace Json

instance : Inhabited Json := ⟨.null⟩

def count (n : Nat) : Json := .number (.whole n)

/-- A number that is not finite has no JSON form of its own. -/
def single (x : Single) : Json := if finite : x.isFinite then .number (.single x finite) else .null

/-- A number that is not finite has no JSON form of its own. -/
def double (x : Double) : Json := if finite : x.isFinite then .number (.double x finite) else .null

/-- What stands for a value that may be absent. -/
def optional {α : Type} (f : α → Json) : Option α → Json
  | none => .null
  | some x => f x

def isNull : Json → Bool
  | .null => true
  | _ => false

/-- The value of a number as a double, and nothing for all else. -/
def toDouble? : Json → Option Double
  | .number n => some n.toDouble
  | _ => none

end Json

end NetEditor
