-- What the training service reports. Any field may be missing, and some have two names, of which
-- the first that is there and not null counts.
import NetEditor.Json.Printer
import NetEditor.Json.Reader
import NetEditor.Training.Fault

namespace NetEditor.Training

structure Report where
  output : Option Json
  loss : Option Double
  losses : Option (List Double)
  error : Option String
  message : Option String

namespace Report

def ofError (text : String) : Report := ⟨none, none, none, some text, none⟩

def isError (r : Report) : Bool := r.error.isSome

def outputTensor (r : Report) : Except Tensor.Fault (Option Tensor) :=
  match r.output with
  | none => .ok none
  | some value => (Tensor.ofNested value).map some

/-- The first of the named fields that is there and not null. -/
def field? (fields : Dictionary Json) (names : List String) : Option Json :=
  names.findSome? fun name => (fields.get? name).filter fun value => !value.isNull

/-- A text as it is, and any other value as JSON text. -/
def textOf : Json → String
  | .text s => s
  | value => value.render

/-- The losses of all epochs. One that is no number would shift the others, so it spoils
them all. -/
def lossesOf : Option Json → Except Unreadable (Option (List Double))
  | some (.array items) =>
    match items.mapM Json.toDouble? with
    | some losses => .ok (some losses)
    | none => .error .lossNotNumeric
  | _ => .ok none

def ofFields (fields : Dictionary Json) : Except Unreadable Report :=
  (lossesOf (field? fields ["loss_history", "lossHistory"])).map fun losses =>
    { output := field? fields ["output", "outputs"]
      loss := (field? fields ["loss"]).bind Json.toDouble?
      losses := losses
      error := (field? fields ["error", "detail"]).map textOf
      message := (field? fields ["message"]).map textOf }

def ofJson : Json → Except Unreadable Report
  | .object fields => ofFields fields
  | _ => .error .notObject

/-- Reads a response. What cannot be read is kept whole; `complain` has the words for a text that is
no JSON. -/
def read (complain : String → String) (raw : String) : Except Fault Report :=
  match Json.read? raw with
  | none => .error (.unreadable (.notJson (complain raw)) raw)
  | some value => match ofJson value with
    | .error reason => .error (.unreadable reason raw)
    | .ok report => .ok report

end Report

end NetEditor.Training
