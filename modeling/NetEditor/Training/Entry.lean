-- The entry of one layer in a training request. All entries have the same members: every
-- parameter of every kind, null where the layer does not have it, so that the service need
-- not know which kind has which.
import NetEditor.Node.Basic
import NetEditor.Dictionary

namespace NetEditor.Training

/-- Second names for the windows of pooling layers. -/
def poolAliases : List (String × String) :=
  [("poolKernelH", "kernelH"), ("poolKernelW", "kernelW"), ("poolStrideH", "strideH"),
    ("poolStrideW", "strideW")]

structure Entry where
  id : NodeId
  kind : Layer.Kind
  family : Layer.Family
  axes : Option String
  params : Dictionary (Option Layer.Value)
deriving DecidableEq

namespace Entry

/-- All members of an entry besides the ones that name the layer. -/
def paramsOf (record : Layer.Record) : List (String × Option Layer.Value) :=
  Layer.paramNames.map (fun name => (name, record.get? name)) ++
    poolAliases.map fun (other, name) =>
      (other, if record.kind.isPool then record.get? name else none)

def ofNode (node : Node) : Entry :=
  { id := node.id
    kind := node.kind
    family := node.kind.family
    axes := node.kind.axes
    params := Dictionary.ofPairs (paramsOf node.record) }

def param? (e : Entry) (name : String) : Option Layer.Value := (e.params.get? name).join

def toJson (e : Entry) : Json :=
  .object ([("id", .text e.id.text), ("kind", .text e.kind.name), ("type", .text e.family.name),
    ("dim", Json.optional .text e.axes)] ++
    e.params.map fun (name, value) => (name, Json.optional Layer.Value.toJson value))

end Entry

end NetEditor.Training
