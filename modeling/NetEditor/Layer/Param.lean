-- Parameters of layers: their values, the constraints on them, and what is said about a value
-- that does not meet its constraint.
import NetEditor.Json.Printer
import NetEditor.Json.Reader
import NetEditor.Layer.Kind
import NetEditor.Text

namespace NetEditor.Layer

/-- Reads the name of a kind, alone or as the only member of an object that is null. -/
def Kind.read? (text : String) : Option Kind :=
  match Json.Document.read? text with
  | some (.text name) | some (.map [(name, .null)]) => (Json.Piece.text? name).bind ofName?
  | _ => none

/-- A parameter's value. Only counts can be dimensions. -/
inductive Value
  | count (n : Nat)
  | real (x : Single)
deriving DecidableEq

namespace Value

def toDouble : Value → Double
  | count n => .ofWhole .double false n
  | real x => x.widen

def toCount? : Value → Option Nat
  | count n => some n
  | real _ => none

def text : Value → String
  | count n => toString n
  | real x => x.messageText

def toJson : Value → Json
  | count n => .count n
  | real x => .single x

/-- Equality as numbers of one form. -/
def same : Value → Value → Bool
  | count a, count b => a = b
  | real a, real b => a.same b
  | _, _ => false

/-- Reads a value without a mark of its form: a whole number from zero on that fits a word
is a count, every other number a real. -/
def read? (text : String) : Option Value :=
  (Json.Document.read? text).bind fun d =>
    match d.count? with
    | some n => some (.count n)
    | none => d.number?.map fun n => .real n.toSingle

end Value

inductive Comparison
  | atLeast
  | atMost
  | above
  | below
deriving DecidableEq, Repr

namespace Comparison

def all : List Comparison := [atLeast, atMost, above, below]

def symbol : Comparison → String
  | atLeast => "≥"
  | atMost => "≤"
  | above => ">"
  | below => "<"

def holds : Comparison → Double → Double → Bool
  | atLeast, value, threshold => threshold.le value
  | atMost, value, threshold => value.le threshold
  | above, value, threshold => threshold.lt value
  | below, value, threshold => value.lt threshold

end Comparison

/-- Why a parameter does not take a value. -/
inductive Fault
  | unknown (kind : Kind) (name : String)
  | outOfRange (name : String) (comparison : Comparison) (threshold value : Double)
  | notWhole (name : String) (value : Double)
  | notFinite (name : String)
  | notNumeric (name raw : String)
deriving DecidableEq

def Fault.message : Fault → String
  | unknown kind name => kind.name ++ "层没有名为" ++ name ++ "的参数"
  | outOfRange name comparison threshold value =>
    "参数" ++ name ++ "须" ++ comparison.symbol ++ threshold.messageText ++ "，实际为" ++
      value.messageText
  | notWhole name value => "参数" ++ name ++ "须为整数，实际为" ++ value.messageText
  | notFinite name => "参数" ++ name ++ "须为有限数值"
  | notNumeric name raw => "参数" ++ name ++ "的输入“" ++ raw ++ "”不是数字"

inductive Constraint
  | positive
  | nonNegative
  | probability
deriving DecidableEq, Repr

namespace Constraint

/-- The form of the values that a constraint is about. -/
def carries : Constraint → Value → Bool
  | positive, .count _ | nonNegative, .count _ | probability, .real _ => true
  | _, _ => false

/-- The bounds of a constraint, in the order in which they are looked at. -/
def bounds : Constraint → List (Comparison × Double)
  | positive => [(.above, .zero .double false)]
  | nonNegative => [(.atLeast, .zero .double false)]
  | probability => [(.atLeast, .zero .double false), (.atMost, .ofWhole .double false 1)]

/-- The count that a number from zero on is. The first number past the counts still passes
for the last of them. -/
def count? (value : Double) : Option Nat :=
  match value.whole? with
  | some n => if n ≤ Text.wordMax + 1 then some (min n Text.wordMax) else none
  | none => none

/-- The value to store for a number, or why there is none: first the number has to be finite,
then to keep the bounds in turn, and last to be whole where a count is wanted. -/
def check (constraint : Constraint) (name : String) (value : Double) : Except Fault Value :=
  if !value.isFinite then .error (.notFinite name)
  else match constraint.bounds.find? fun bound => !bound.1.holds value bound.2 with
    | some (comparison, threshold) => .error (.outOfRange name comparison threshold value)
    | none => match constraint with
      | probability => .ok (.real value.narrow)
      | positive | nonNegative => match count? value with
        | some n => .ok (.count n)
        | none => .error (.notWhole name value)

theorem carries_of_check {constraint : Constraint} {name : String} {value : Double} {v : Value}
    (h : constraint.check name value = .ok v) : constraint.carries v = true := by
  unfold check at h
  split at h
  · simp at h
  · split at h
    · simp at h
    · cases constraint with
      | probability => simp at h; subst h; rfl
      | positive => simp only at h; split at h <;> simp at h; subst h; rfl
      | nonNegative => simp only at h; split at h <;> simp at h; subst h; rfl

end Constraint

end NetEditor.Layer
