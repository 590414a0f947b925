-- The edits of a graph. Each one either takes effect, and raises the revision by one, or
-- is refused and gives no new graph at all. A question about a node is refused as an edit of it is.
import NetEditor.Graph.Basic
import NetEditor.Numeric.Decimal
import NetEditor.Text

namespace NetEditor.Graph

inductive Failure
  | nodeMissing (id : NodeId)
  | edgeMissing (id : EdgeId)
  | connectionRefused (source target : Layer.Kind) (reason : Refusal)
deriving DecidableEq, Repr

def Failure.message : Failure → String
  | nodeMissing id => "节点" ++ id.text ++ "不存在"
  | edgeMissing id => "边" ++ id.text ++ "不存在"
  | connectionRefused source target reason =>
    "无法连接 " ++ source.name ++ " → " ++ target.name ++ "：" ++ reason.message

/-- The answer to a question about a node, which has to be there. -/
def ask {α : Type} (g : Graph) (id : NodeId) (answer : Graph → NodeId → α) : Except Failure α :=
  match g.node? id with
  | none => .error (.nodeMissing id)
  | some _ => .ok (answer g id)

/-- How a successor fares with a node's new output dimension. Only told, never acted on. -/
structure Hint where
  target : NodeId
  kind : Layer.Kind
  incoming : Dim
  declared : Dim
  compatible : Bool
deriving DecidableEq, Repr

/-- What became of a new parameter value. A value that is not legal is dropped. -/
inductive Patch
  | applied (hints : List Hint)
  | rejected (fault : Layer.Fault)
deriving DecidableEq

/-- The graph after an edit that took effect. -/
def commit (g : Graph) (nodes : List Node) (edges : List Edge) : Graph :=
  ⟨nodes, edges, g.revision + 1⟩

def updateNode (id : NodeId) (change : Node → Node) : List Node → List Node
  | [] => []
  | node :: rest => if node.id = id then change node :: rest else node :: updateNode id change rest

/-- Adds a new layer, named with the serial number after those already given out. -/
def addNode (g : Graph) (serial : Nat) (kind : Layer.Kind) : Node × Graph :=
  let node := Node.initial (NodeId.numbered kind (serial + 1)) kind
  (node, g.commit (g.nodes ++ [node]) g.edges)

def removeNode (g : Graph) (id : NodeId) : Except Failure (Node × Graph) :=
  match g.node? id with
  | none => .error (.nodeMissing id)
  | some node => .ok
      (node, g.commit (g.nodes.eraseP fun other => other.id = id)
        (g.edges.filter fun edge => !edge.touches id))

def moveNode (g : Graph) (id : NodeId) (position : Position) : Except Failure Graph :=
  match g.node? id with
  | none => .error (.nodeMissing id)
  | some _ => .ok
      (g.commit (updateNode id (fun node => { node with position := position }) g.nodes) g.edges)

/-- One hint for each edge that goes out of a node. -/
def hints (g : Graph) (id : NodeId) : List Hint :=
  match g.node? id with
  | none => []
  | some source => (g.successors id).map fun target =>
      { target := target.id
        kind := target.kind
        incoming := source.outputDim
        declared := target.inputDim
        compatible := (source.refusal? target).isNone }

/-- Sets a parameter of a node. A new output dimension comes with hints. -/
def patch (g : Graph) (id : NodeId) (name : String) (value : Double) :
    Except Failure (Patch × Graph) :=
  match g.node? id with
  | none => .error (.nodeMissing id)
  | some node => match node.record.set name value with
    | .error fault => .ok (.rejected fault, g)
    | .ok record =>
      let next := g.commit
        (updateNode id (fun node => { node with record := record }) g.nodes) g.edges
      .ok (.applied (if node.kind.outputKey = some name then next.hints id else []), next)

/-- The number that a person typed, blanks around it allowed. -/
def typedNumber? (raw : String) : Option Double :=
  Binary.read? .double (Text.trim raw.toList)

def patchText (g : Graph) (id : NodeId) (name raw : String) : Except Failure (Patch × Graph) :=
  match typedNumber? raw with
  | some value => g.patch id name value
  | none => match g.node? id with
    | none => .error (.nodeMissing id)
    | some _ => .ok (.rejected (.notNumeric name raw), g)

/-- Connects two nodes. A connection that is there already stays as it is, even where it would
not be allowed any more. -/
def connect (g : Graph) (source target : NodeId) : Except Failure (EdgeId × Graph) :=
  match g.node? source, g.node? target with
  | none, _ => .error (.nodeMissing source)
  | some _, none => .error (.nodeMissing target)
  | some s, some t => match g.edgeBetween? source target with
    | some edge => .ok (edge.id, g)
    | none => match s.refusal? t with
      | some reason => .error (.connectionRefused s.kind t.kind reason)
      | none =>
        let edge := Edge.between source target
        .ok (edge.id, g.commit g.nodes (g.edges ++ [edge]))

def disconnect (g : Graph) (id : EdgeId) : Except Failure (Edge × Graph) :=
  match g.edge? id with
  | none => .error (.edgeMissing id)
  | some edge => .ok (edge, g.commit g.nodes (g.edges.eraseP fun other => other.id = id))

end NetEditor.Graph
