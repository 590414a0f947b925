-- Which connections are allowed. Each node has one dimension that it gives out and one that it
-- expects, a number of features or channels, and either may be unknown. Only the two ends are
-- looked at, never what lies before or behind them. Dimensions that are both known have to agree;
-- an unknown one is let pass, except from a linear layer into a one-dimensional convolution.
import NetEditor.Node.Basic

namespace NetEditor

/-! ## Dimensions -/

abbrev Dim : Type := Option Nat

/-- The dimension as shown to people. -/
def Dim.text : Dim → String
  | some n => toString n
  | none => "?"

namespace Layer.Record

/-- The count that the parameter of this key holds. -/
def dim (r : Record) (key : Option String) : Dim :=
  (key.bind r.get?).bind Value.toCount?

end Layer.Record

namespace Node

def outputDim (n : Node) : Dim := n.record.dim n.kind.outputKey

def inputDim (n : Node) : Dim := n.record.dim n.kind.inputKey

end Node

/-! ## Verdicts -/

/-- Why a connection is not allowed. -/
inductive Refusal
  | missingNode
  | embeddingTarget
  | dimensionMismatch (source target : Nat)
  | channelsUndetermined
deriving DecidableEq, Repr

def Refusal.message : Refusal → String
  | missingNode => "连接的节点不存在"
  | embeddingTarget => "embedding 层不能作为连接目标"
  | dimensionMismatch source target =>
    "源节点输出维度为" ++ toString source ++ "，目标节点期望输入维度为" ++ toString target
  | channelsUndetermined => "linear 接入 conv1d 时 outFeatures 与 inChannels 都必须已设置且相等"

namespace Dim

def mismatch? : Dim → Dim → Option Refusal
  | some s, some t => if s = t then none else some (.dimensionMismatch s t)
  | _, _ => none

def unlessKnownEqual? : Dim → Dim → Option Refusal
  | some s, some t => if s = t then none else some (.dimensionMismatch s t)
  | _, _ => some .channelsUndetermined

end Dim

namespace Node

/-- What the kind of the target asks for once known dimensions agree. -/
def kindRefusal? (source target : Node) : Option Refusal :=
  match target.kind with
  | .conv1d =>
    if source.kind = .linear then Dim.unlessKnownEqual? source.outputDim target.inputDim else none
  | .embedding => some .embeddingTarget
  | .linear | .layerNorm | .relu | .dropout => none
  | .conv2d | .conv3d | .convTranspose1d | .convTranspose2d => none
  | .avgPool1d | .avgPool2d | .avgPool3d | .maxPool1d | .maxPool2d | .maxPool3d => none
  | .adaptiveAvgPool1d | .adaptiveAvgPool2d => none

/-- What is wrong with a connection between two nodes that exist. -/
def refusal? (source target : Node) : Option Refusal :=
  if target.kind = .embedding then some .embeddingTarget
  else match Dim.mismatch? source.outputDim target.inputDim with
    | some reason => some reason
    | none => source.kindRefusal? target

end Node

/-- What is wrong with a connection. -/
def connectionRefusal? : Option Node → Option Node → Option Refusal
  | some source, some target => source.refusal? target
  | _, _ => some .missingNode

def canConnect (source target : Option Node) : Bool := (connectionRefusal? source target).isNone

end NetEditor
