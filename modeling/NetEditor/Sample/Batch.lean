-- Batches of samples. A batch is good only as a whole: the first bad sample, counted from one,
-- is what is said about it.
import NetEditor.Sample.Basic

namespace NetEditor

inductive Side
  | input
  | output
deriving DecidableEq, Repr

def Side.name : Side → String
  | input => "输入"
  | output => "输出"

inductive BatchFault
  | malformed (index : Nat) (defect : SampleDefect)
  | shapeMismatch (index : Nat) (expected got : List Nat)
  | countMismatch (side : Side) (expected got : Nat)
  | empty
deriving DecidableEq, Repr

def BatchFault.message : BatchFault → String
  | malformed index defect => "第" ++ toString index ++ "个样本格式错误: " ++ defect.reason
  | shapeMismatch index expected got =>
    "第" ++ toString index ++ "个样本形状不匹配: 期望 " ++ Tensor.shapeText expected ++ ", 实际 " ++
      Tensor.shapeText got
  | countMismatch side expected got =>
    side.name ++ "样本数量不匹配: 期望 " ++ toString expected ++ ", 实际 " ++ toString got
  | empty => "样本批次为空"

namespace Batch

/-- Reads the samples from this place on, all of one shape. -/
def readRest (expected : List Nat) (index : Nat) :
    List (List Char) → Except BatchFault (List Tensor)
  | [] => .ok []
  | text :: rest =>
    match SampleText.parse text with
    | .error defect => .error (.malformed index defect)
    | .ok t =>
      if t.shape = expected then (readRest expected (index + 1) rest).map (t :: ·)
      else .error (.shapeMismatch index expected t.shape)

def readAll : List (List Char) → Except BatchFault (List Tensor)
  | [] => .error .empty
  | text :: rest =>
    match SampleText.parse text with
    | .error defect => .error (.malformed 1 defect)
    | .ok first => (readRest first.shape 2 rest).map (first :: ·)

/-- The lines of a text once the blanks at its ends are gone. -/
def sampleLines (text : String) : List (List Char) := Text.lines (Text.trim text.toList)

/-- Pairs each line of the inputs with the same line of the outputs. Both sides have to have
as many lines as announced, or else as there are inputs. -/
def build (inputs outputs : String) (announced : Option Nat) : Except BatchFault (List Sample) :=
  let inputLines := sampleLines inputs
  let outputLines := sampleLines outputs
  let expected := announced.getD inputLines.length
  if inputLines.length ≠ expected then
    .error (.countMismatch .input expected inputLines.length)
  else if outputLines.length ≠ expected then
    .error (.countMismatch .output expected outputLines.length)
  else match readAll inputLines with
    | .error fault => .error fault
    | .ok ins => (readAll outputLines).map fun outs => List.zipWith Sample.mk ins outs

/-- The first sample, from this place on, with another input shape or else another output
shape than the given ones. -/
def shapeFault? (input output : List Nat) (index : Nat) : List Sample → Option BatchFault
  | [] => none
  | s :: rest =>
    if s.input.shape ≠ input then some (.shapeMismatch index input s.input.shape)
    else if s.output.shape ≠ output then some (.shapeMismatch index output s.output.shape)
    else shapeFault? input output (index + 1) rest

/-- The first sample whose shapes are not those of the first one. -/
def unevenSample? : List Sample → Option BatchFault
  | [] => none
  | first :: rest => shapeFault? first.input.shape first.output.shape 2 rest

end Batch

end NetEditor
