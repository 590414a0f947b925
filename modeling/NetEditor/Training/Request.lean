-- Requests to the training service: the graph as a list of layers and a list of links, the
-- schedule, and the samples, which may be none at all.
import NetEditor.Graph.Basic
import NetEditor.Training.Entry
import NetEditor.Training.Fault

namespace NetEditor.Training

/-- How long and how fast to train. -/
structure Schedule where
  epochs : Nat
  learningRate : Double
deriving DecidableEq

namespace Schedule

def initial : Schedule := ⟨20, .ofRatio .double false 1 100⟩

/-- At least one epoch, and a finite rate above zero; the epochs are looked at first. -/
def fault? (s : Schedule) : Option ScheduleFault :=
  if s.epochs = 0 then some (.epochs s.epochs)
  else if s.learningRate.isFinite && (Binary.zero .double false).lt s.learningRate then none
  else some (.learningRate s.learningRate)

/-- The schedule with these figures, if they are legal. -/
def ofFigures (epochs : Nat) (learningRate : Double) : Except Fault Schedule :=
  let s : Schedule := ⟨epochs, learningRate⟩
  match s.fault? with
  | some fault => .error (.schedule fault)
  | none => .ok s

end Schedule

/-- An edge as the service is told of it: by its two ends and without a name of its own. -/
structure Link where
  source : NodeId
  target : NodeId
deriving DecidableEq, Repr

namespace Link

def ofEdge (e : Edge) : Link := ⟨e.source, e.target⟩

def toJson (l : Link) : Json :=
  .object [("source", .text l.source.text), ("target", .text l.target.text)]

end Link

structure Request where
  nodes : List Entry
  edges : List Link
  schedule : Schedule
  samples : List Sample
deriving DecidableEq

namespace Request

/-- The request for a graph: nodes and edges in the order of the graph. The schedule is
looked at before the samples. -/
def build (graph : Graph) (samples : List Sample) (schedule : Schedule) : Except Fault Request :=
  match schedule.fault? with
  | some fault => .error (.schedule fault)
  | none => match Batch.unevenSample? samples with
    | some fault => .error (.data fault)
    | none => .ok
      { nodes := graph.nodes.map Entry.ofNode
        edges := graph.edges.map Link.ofEdge
        schedule := schedule
        samples := samples }

def toJson (r : Request) : Json :=
  .object [("nodes", .array (r.nodes.map Entry.toJson)),
    ("edges", .array (r.edges.map Link.toJson)),
    ("epochs", .count r.schedule.epochs), ("learningRate", .double r.schedule.learningRate),
    ("training", .array (r.samples.map Sample.toJson))]

end Request

/-- A request to run the trained network on one input. -/
def runJson (input : Tensor) : Json := .object [("input", input.toJson)]

end NetEditor.Training
