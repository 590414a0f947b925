-- Nodes and edges of a drawing: a node is one layer with its parameter values at a place on the
-- sheet, an edge says that the output of one node goes into another. A node made by the editor is
-- named for its kind and a serial number, an edge for its two ends.
import NetEditor.Json.Reader
import NetEditor.Layer.Record

namespace NetEditor

/-! ## Names -/

structure NodeId where
  text : String
deriving DecidableEq, Repr

structure EdgeId where
  text : String
deriving DecidableEq, Repr

namespace NodeId

/-- Reads a name in quotes. -/
def read? (text : String) : Option NodeId :=
  ((Json.Document.read? text).bind Json.Document.text?).map NodeId.mk

/-- The name of the node that is made with this serial number. -/
def numbered (kind : Layer.Kind) (serial : Nat) : NodeId :=
  ⟨kind.name ++ "_" ++ toString serial⟩

end NodeId

namespace EdgeId

/-- Reads a name in quotes. -/
def read? (text : String) : Option EdgeId :=
  ((Json.Document.read? text).bind Json.Document.text?).map EdgeId.mk

def between (source target : NodeId) : EdgeId := ⟨source.text ++ "->" ++ target.text⟩

end EdgeId

/-! ## Nodes and edges -/

/-- A place on the sheet. It is for display only. -/
structure Position where
  x : Single
  y : Single
deriving DecidableEq

namespace Position

/-- Where new nodes appear. -/
def initial : Position := ⟨.ofWhole .single false 200, .ofWhole .single false 200⟩

def same (a b : Position) : Bool := a.x.same b.x && a.y.same b.y

def toJson (p : Position) : Json := .object [("x", .single p.x), ("y", .single p.y)]

/-- Reads a record of two numbers. -/
def read? (text : String) : Option Position := do
  let fields ← (← Json.Document.read? text).record? ["x", "y"]
  let x ← (← fields.get? "x").number?
  let y ← (← fields.get? "y").number?
  pure ⟨x.toSingle, y.toSingle⟩

end Position

structure Node where
  id : NodeId
  record : Layer.Record
  position : Position
deriving DecidableEq

namespace Node

/-- A new layer of a kind under a name. -/
def initial (id : NodeId) (kind : Layer.Kind) : Node :=
  ⟨id, Layer.Record.initial kind, Position.initial⟩

def kind (n : Node) : Layer.Kind := n.record.kind

def param? (n : Node) (name : String) : Option Layer.Value := n.record.get? name

def text (n : Node) : String := "节点[id=" ++ n.id.text ++ ", type=" ++ n.kind.name ++ "]"

def same (a b : Node) : Bool := a.id = b.id && a.record.same b.record && a.position.same b.position

end Node

structure Edge where
  id : EdgeId
  source : NodeId
  target : NodeId
deriving DecidableEq, Repr

namespace Edge

/-- The edge from one node to another, named for both. -/
def between (source target : NodeId) : Edge := ⟨EdgeId.between source target, source, target⟩

/-- The node is one of the two ends. -/
def touches (e : Edge) (node : NodeId) : Bool := e.source = node || e.target = node

end Edge

end NetEditor
