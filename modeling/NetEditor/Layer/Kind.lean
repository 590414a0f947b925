-- The kinds of layers. The set is closed: each table below names every kind.

namespace NetEditor.Layer

inductive Kind
  | linear
  | relu
  | dropout
  | layerNorm
  | embedding
  | conv1d
  | conv2d
  | conv3d
  | convTranspose1d
  | convTranspose2d
  | avgPool1d
  | avgPool2d
  | avgPool3d
  | maxPool1d
  | maxPool2d
  | maxPool3d
  | adaptiveAvgPool1d
  | adaptiveAvgPool2d
deriving DecidableEq, Repr, Inhabited

/-- Kinds that differ only in the number of axes they work on are of one family. -/
inductive Family
  | linear
  | relu
  | dropout
  | layerNorm
  | embedding
  | conv
  | convTranspose
  | avgPool
  | maxPool
  | adaptiveAvgPool
deriving DecidableEq, Repr

def Family.name : Family → String
  | .linear => "linear"
  | .relu => "relu"
  | .dropout => "dropout"
  | .layerNorm => "layernorm"
  | .embedding => "embedding"
  | .conv => "conv"
  | .convTranspose => "convtranspose"
  | .avgPool => "avgpool"
  | .maxPool => "maxpool"
  | .adaptiveAvgPool => "adaptiveavgpool"

namespace Kind

/-- All kinds, in the order in which they are offered. -/
def all : List Kind :=
  [linear, relu, dropout, layerNorm, embedding, conv1d, conv2d, conv3d, convTranspose1d,
    convTranspose2d, avgPool1d, avgPool2d, avgPool3d, maxPool1d, maxPool2d, maxPool3d,
    adaptiveAvgPool1d, adaptiveAvgPool2d]

def name : Kind → String
  | linear => "linear"
  | relu => "relu"
  | dropout => "dropout"
  | layerNorm => "layernorm"
  | embedding => "embedding"
  | conv1d => "conv1d"
  | conv2d => "conv2d"
  | conv3d => "conv3d"
  | convTranspose1d => "convtranspose1d"
  | convTranspose2d => "convtranspose2d"
  | avgPool1d => "avgpool1d"
  | avgPool2d => "avgpool2d"
  | avgPool3d => "avgpool3d"
  | maxPool1d => "maxpool1d"
  | maxPool2d => "maxpool2d"
  | maxPool3d => "maxpool3d"
  | adaptiveAvgPool1d => "adaptiveavgpool1d"
  | adaptiveAvgPool2d => "adaptiveavgpool2d"

def ofName? (name : String) : Option Kind := all.find? fun kind => kind.name = name

def family : Kind → Family
  | linear => .linear
  | relu => .relu
  | dropout => .dropout
  | layerNorm => .layerNorm
  | embedding => .embedding
  | conv1d | conv2d | conv3d => .conv
  | convTranspose1d | convTranspose2d => .convTranspose
  | avgPool1d | avgPool2d | avgPool3d => .avgPool
  | maxPool1d | maxPool2d | maxPool3d => .maxPool
  | adaptiveAvgPool1d | adaptiveAvgPool2d => .adaptiveAvgPool

/-- On how many axes a kind works, as text; kinds that do not walk along axes have none. -/
def axes : Kind → Option String
  | conv1d | convTranspose1d | avgPool1d | maxPool1d | adaptiveAvgPool1d => some "1d"
  | conv2d | convTranspose2d | avgPool2d | maxPool2d | adaptiveAvgPool2d => some "2d"
  | conv3d | avgPool3d | maxPool3d => some "3d"
  | linear | relu | dropout | layerNorm | embedding => none

/-- The parameter that says how many features or channels come out. Layers without one pass
on what they get. -/
def outputKey : Kind → Option String
  | linear => some "outFeatures"
  | layerNorm => some "normalizedShape"
  | embedding => some "embeddingDim"
  | conv1d | conv2d | conv3d | convTranspose1d | convTranspose2d => some "outChannels"
  | relu | dropout | avgPool1d | avgPool2d | avgPool3d | maxPool1d | maxPool2d | maxPool3d
  | adaptiveAvgPool1d | adaptiveAvgPool2d => none

/-- The parameter that says how many features or channels are expected. -/
def inputKey : Kind → Option String
  | linear => some "inFeatures"
  | layerNorm => some "normalizedShape"
  | conv1d | conv2d | conv3d | convTranspose1d | convTranspose2d => some "inChannels"
  | relu | dropout | embedding | avgPool1d | avgPool2d | avgPool3d | maxPool1d | maxPool2d
  | maxPool3d | adaptiveAvgPool1d | adaptiveAvgPool2d => none

/-- Pooling with a window of its own; adaptive pooling has none. -/
def isPool (kind : Kind) : Bool := kind.family = .avgPool || kind.family = .maxPool

theorem mem_all (kind : Kind) : kind ∈ all := by cases kind <;> decide

theorem ofName?_name (kind : Kind) : ofName? kind.name = some kind := by
  cases kind <;> decide

theorem name_injective {a b : Kind} (h : a.name = b.name) : a = b := by
  have := ofName?_name a
  rw [h, ofName?_name b] at this
  exact (Option.some.inj this).symm

end Kind

end NetEditor.Layer
