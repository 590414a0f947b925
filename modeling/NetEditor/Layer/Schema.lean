-- Which parameters the layers of a kind have, in the order in which they are shown, and the
-- values of a new layer.
import NetEditor.Layer.Param

namespace NetEditor.Layer

/-- A parameter: the value of a new layer is absent where it has to be chosen. -/
structure Param where
  name : String
  constraint : Constraint
  initial : Option Value
deriving DecidableEq

namespace Param

/-- A size of at least one. -/
def size (name : String) (initial : Nat) : Param := ⟨name, .positive, some (.count initial)⟩

/-- A size that a new layer leaves open. -/
def openSize (name : String) : Param := ⟨name, .positive, none⟩

/-- A number of cells added at the border, at first none. -/
def border (name : String) : Param := ⟨name, .nonNegative, some (.count 0)⟩

def chance (name : String) (initial : Single) : Param := ⟨name, .probability, some (.real initial)⟩

end Param

namespace Kind

open Param

def schema : Kind → List Param
  | linear => [size "inFeatures" 16, size "outFeatures" 16]
  | relu => []
  | dropout => [chance "p" (.ofRatio .single false 1 2)]
  | layerNorm => [size "normalizedShape" 16]
  | embedding => [size "numEmbeddings" 100, size "embeddingDim" 16, size "seqLen" 1]
  | conv1d =>
    [size "inChannels" 1, size "outChannels" 32, size "kernelSize" 3, size "stride" 1,
      border "padding"]
  | conv2d =>
    [size "inChannels" 1, size "outChannels" 32, size "kernelH" 3, size "kernelW" 3,
      size "strideH" 1, size "strideW" 1, border "padH", border "padW"]
  | conv3d =>
    [size "inChannels" 1, size "outChannels" 32, size "kernelD" 3, size "kernelH" 3,
      size "kernelW" 3, size "strideD" 1, size "strideH" 1, size "strideW" 1, border "padD",
      border "padH", border "padW"]
  | convTranspose1d =>
    [openSize "inChannels", openSize "outChannels", size "kernelSize" 3, size "stride" 1,
      border "padding", border "outPadding"]
  | convTranspose2d =>
    [openSize "inChannels", openSize "outChannels", size "kernelH" 3, size "kernelW" 3,
      size "strideH" 1, size "strideW" 1, border "padH", border "padW", border "outPadH",
      border "outPadW", size "inH" 28, size "inW" 28]
  | avgPool1d => [size "kernel" 2, size "stride" 2, border "padding"]
  | avgPool2d => [size "kernelH" 2, size "kernelW" 2, size "strideH" 1, size "strideW" 1]
  | avgPool3d =>
    [size "kernelD" 2, size "kernelH" 2, size "kernelW" 2, size "strideD" 1, size "strideH" 1,
      size "strideW" 1]
  | maxPool1d => [size "kernel" 2, size "stride" 1]
  | maxPool2d => [size "kernelH" 2, size "kernelW" 2, size "strideH" 1, size "strideW" 1]
  | maxPool3d =>
    [size "kernelD" 2, size "kernelH" 2, size "kernelW" 2, size "strideD" 1, size "strideH" 1,
      size "strideW" 1]
  | adaptiveAvgPool1d => [size "outputSize" 1]
  | adaptiveAvgPool2d => [size "outputH" 1, size "outputW" 1]

def param? (kind : Kind) (name : String) : Option Param :=
  kind.schema.find? fun param => param.name = name

theorem schema_names_nodup (kind : Kind) : (kind.schema.map (·.name)).Nodup := by
  cases kind <;> decide

end Kind

/-- The names of all parameters of all kinds, each where it first occurs. -/
def paramNames : List String :=
  (Kind.all.flatMap fun kind => kind.schema.map (·.name)).foldl
    (fun names name => if names.contains name then names else names ++ [name]) []

end NetEditor.Layer
