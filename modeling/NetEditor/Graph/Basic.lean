-- Graphs: the nodes and edges of a drawing at one moment, both in the order in which they were
-- added, and how many edits took effect so far. A graph is a value; an edit makes a new one.
import NetEditor.Node.Connection

namespace NetEditor

structure Graph where
  nodes : List Node
  edges : List Edge
  revision : Nat
deriving DecidableEq

namespace Graph

def empty : Graph := ⟨[], [], 0⟩

instance : Inhabited Graph := ⟨empty⟩

def node? (g : Graph) (id : NodeId) : Option Node := g.nodes.find? fun node => node.id = id

def contains (g : Graph) (id : NodeId) : Bool := (g.node? id).isSome

def edge? (g : Graph) (id : EdgeId) : Option Edge := g.edges.find? fun edge => edge.id = id

def edgeBetween? (g : Graph) (source target : NodeId) : Option Edge :=
  g.edges.find? fun edge => edge.source = source && edge.target = target

/-- The nodes that the output of a node goes into. -/
def successors (g : Graph) (id : NodeId) : List Node :=
  (g.edges.filter fun edge => edge.source = id).filterMap fun edge => g.node? edge.target

/-- The nodes whose output goes into a node. -/
def predecessors (g : Graph) (id : NodeId) : List Node :=
  (g.edges.filter fun edge => edge.target = id).filterMap fun edge => g.node? edge.source

def incident (g : Graph) (id : NodeId) : List Edge := g.edges.filter fun edge => edge.touches id

/-- Two lists of one length whose nodes are the same in turn. -/
def sameNodes : List Node → List Node → Bool
  | [], [] => true
  | a :: as, b :: bs => a.same b && sameNodes as bs
  | _, _ => false

/-- Equality with all floating point numbers taken as numbers. -/
def same (a b : Graph) : Bool :=
  sameNodes a.nodes b.nodes && a.edges = b.edges && a.revision = b.revision

theorem node?_id {g : Graph} {id : NodeId} {node : Node} (h : g.node? id = some node) :
    node.id = id := by
  simpa using List.find?_some h

theorem mem_of_node? {g : Graph} {id : NodeId} {node : Node} (h : g.node? id = some node) :
    node ∈ g.nodes := List.mem_of_find?_eq_some h

end Graph

end NetEditor
