-- Where the training service is and how long to wait for it. Settings come from what is built
-- in, from a JSON text, and from two environment variables, each over the one before.
import NetEditor.Json.Printer
import NetEditor.Json.Reader
import NetEditor.Text
import NetEditor.Training.Fault

namespace NetEditor.Training

structure Settings where
  endpoint : String
  runPath : String
  trainPath : String
  /-- Seconds. -/
  timeout : Nat
deriving DecidableEq, Repr

namespace Settings

def initial : Settings := ⟨"http://localhost:8000", "/run", "/run_model", 30⟩

def endpointVariable : String := "LAYER_CANVAS_ENDPOINT"

def timeoutVariable : String := "LAYER_CANVAS_TIMEOUT_SECS"

def toJson (s : Settings) : Json :=
  .object [("endpoint", .text s.endpoint), ("run_path", .text s.runPath),
    ("train_path", .text s.trainPath), ("timeout_secs", .count s.timeout)]

/-- An endpoint that is not blank, and some time to wait. -/
def fault? (s : Settings) : Option SettingsFault :=
  if Text.trim s.endpoint.toList = [] then some .noEndpoint
  else if s.timeout = 0 then some .noTimeout
  else none

def validated (s : Settings) : Except Fault Settings :=
  match s.fault? with
  | some fault => .error (.settings fault)
  | none => .ok s

/-- A field of a record, or what is built in where it is missing. -/
def fieldOr {α : Type} (fields : Dictionary Json.Document) (name : String)
    (read : Json.Document → Option α) (builtIn : α) : Option α :=
  match fields.get? name with
  | none => some builtIn
  | some d => read d

/-- Reads a record; missing fields are as built in. -/
def read? (text : String) : Option Settings := do
  let fields ← (← Json.Document.read? text).record?
    ["endpoint", "run_path", "train_path", "timeout_secs"]
  let endpoint ← fieldOr fields "endpoint" Json.Document.text? initial.endpoint
  let runPath ← fieldOr fields "run_path" Json.Document.text? initial.runPath
  let trainPath ← fieldOr fields "train_path" Json.Document.text? initial.trainPath
  let timeout ← fieldOr fields "timeout_secs" Json.Document.count? initial.timeout
  pure ⟨endpoint, runPath, trainPath, timeout⟩

/-- Settings from a text; `complain` has the words for one that is no record of them. -/
def ofText (complain : String → String) (text : String) : Except Fault Settings :=
  match read? text with
  | none => .error (.settings (.notJson (complain text)))
  | some s => s.validated

/-- Settings from the bytes of a file, or what the system says where there are none. -/
def ofFile (complain : String → String) (content : Except String ByteArray) :
    Except Fault Settings :=
  match content with
  | .error reason => .error (.file reason)
  | .ok bytes => match String.fromUTF8? bytes with
    | none => .error (.file "stream did not contain valid UTF-8")
    | some text => ofText complain text

/-- Puts the values of the environment variables over these settings. -/
def withOverrides (s : Settings) (lookup : String → Option String) : Except Fault Settings :=
  let s := { s with endpoint := (lookup endpointVariable).getD s.endpoint }
  match lookup timeoutVariable with
  | none => s.validated
  | some raw => match Text.readCount? (Text.trim raw.toList) with
    | none => .error (.settings (.timeoutText raw))
    | some seconds => { s with timeout := seconds }.validated

def url (s : Settings) (path : String) : String :=
  String.ofList (s.endpoint.toList.reverse.dropWhile (· = '/')).reverse ++ path

end Settings

end NetEditor.Training
