-- Samples typed as text: rows end at a semicolon, and the numbers of a row stand apart by blanks
-- or commas. One row makes a vector, several make a matrix.
import NetEditor.Numeric.Decimal
import NetEditor.Tensor.Nested
import NetEditor.Text

namespace NetEditor

/-- What is wrong with the text of one sample. Rows are counted from one. -/
inductive SampleDefect
  | emptyText
  | emptyRow (row : Nat)
  | unevenRow (row got expected : Nat)
  | notNumeric (token : String)
  | tensor (fault : Tensor.Fault)
deriving DecidableEq, Repr

namespace SampleDefect

def reason : SampleDefect → String
  | emptyText => "文本为空"
  | emptyRow row => "第" ++ toString row ++ "行为空"
  | unevenRow row got expected =>
    "第" ++ toString row ++ "行有" ++ toString got ++ "个数值，与第1行的" ++ toString expected ++
      "个不一致"
  | notNumeric token => "“" ++ token ++ "”不是有效数值"
  | tensor fault => fault.message

/-- The defect of a text that is the only one. -/
def message (defect : SampleDefect) : String := "样本格式错误: " ++ defect.reason

end SampleDefect

namespace SampleText

/-- How a token is read as a number, if at all. -/
abbrev Reading : Type := List Char → Option Single

def typed : Reading := Binary.read? .single

def separates (c : Char) : Bool := Text.isBlank c || c = ','

/-- The number of a token. Infinities and `nan` are none. -/
def number (read : Reading) (token : List Char) : Except SampleDefect Single :=
  match (read token).filter Binary.isFinite with
  | some x => .ok x
  | none => .error (.notNumeric (String.ofList token))

def rowNumbers (read : Reading) : List (List Char) → Except SampleDefect (List Single)
  | [] => .ok []
  | token :: rest =>
    match number read token with
    | .error defect => .error defect
    | .ok x => (rowNumbers read rest).map (x :: ·)

/-- The numbers of a row, none of them missing and as many as in the first row. -/
def row (read : Reading) (index : Nat) (width : Option Nat) (text : List Char) :
    Except SampleDefect (List Single) :=
  match rowNumbers read (Text.tokens separates text) with
  | .error defect => .error defect
  | .ok [] => .error (.emptyRow index)
  | .ok (x :: xs) =>
    let got := (x :: xs).length
    match width with
    | none => .ok (x :: xs)
    | some expected =>
      if got = expected then .ok (x :: xs) else .error (.unevenRow index got expected)

/-- The numbers of all rows, up to the first bad row. The width is that of the rows before. -/
def rows (read : Reading) (index : Nat) (width : Option Nat) :
    List (List Char) → Except SampleDefect (List (List Single))
  | [] => .ok []
  | text :: rest =>
    match row read index width text with
    | .error defect => .error defect
    | .ok xs => (rows read (index + 1) (some xs.length) rest).map (xs :: ·)

/-- The shape of a matrix with these rows; a single row is a vector. -/
def shapeOf : List (List Single) → List Nat
  | [] => [0]
  | [xs] => [xs.length]
  | xs :: rest => [rest.length + 1, xs.length]

def parseWith (read : Reading) (text : List Char) : Except SampleDefect Tensor :=
  let trimmed := Text.trim text
  if trimmed = [] then .error .emptyText
  else match rows read 1 none (trimmed.splitOn ';') with
    | .error defect => .error defect
    | .ok matrix => match Tensor.ofData matrix.flatten (shapeOf matrix) with
      | .ok t => .ok t
      | .error fault => .error (.tensor fault)

def parse (text : List Char) : Except SampleDefect Tensor := parseWith typed text

end SampleText

/-- An input and the output that is wanted for it. -/
structure Sample where
  input : Tensor
  output : Tensor
deriving DecidableEq

def Sample.toJson (s : Sample) : Json :=
  .object [("input", s.input.toJson), ("output", s.output.toJson)]

end NetEditor
