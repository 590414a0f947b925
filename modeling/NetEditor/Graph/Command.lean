-- Edits as commands: each one is run against a graph and says what came of it. A command that
-- fails leaves the graph as it was.
import NetEditor.Graph.Edit

namespace NetEditor

inductive Command
  | addNode (kind : Layer.Kind)
  | removeNode (id : NodeId)
  | patch (id : NodeId) (name : String) (value : Double)
  | patchText (id : NodeId) (name raw : String)
  | moveNode (id : NodeId) (position : Position)
  | connect (source target : NodeId)
  | disconnect (id : EdgeId)
deriving DecidableEq

inductive Outcome
  | nodeAdded (node : Node)
  | nodeRemoved (node : Node)
  | patched (patch : Graph.Patch)
  | nodeMoved
  | connected (id : EdgeId)
  | disconnected (edge : Edge)
  | failed (reason : Graph.Failure)
deriving DecidableEq

namespace Outcome

def isSuccess : Outcome → Bool
  | patched (.rejected _) | failed _ => false
  | _ => true

/-- What to tell the person at the sheet, where something has to be told. -/
def message? : Outcome → Option String
  | patched (.rejected fault) => some fault.message
  | failed reason => some reason.message
  | _ => none

theorem message?_isSome (outcome : Outcome) : outcome.message?.isSome = !outcome.isSuccess := by
  cases outcome with
  | patched patch => cases patch <;> rfl
  | _ => rfl

end Outcome

namespace Graph

/-- The result of an edit, or the failure with the graph as it was. -/
def settle {α : Type} (g : Graph) (done : α → Outcome) :
    Except Failure (α × Graph) → Outcome × Graph
  | .ok (result, next) => (done result, next)
  | .error reason => (.failed reason, g)

/-- Runs a command; `serial` is the number of nodes that were ever added anywhere. -/
def apply (g : Graph) (serial : Nat) : Command → Outcome × Graph
  | .addNode kind =>
    let (node, next) := g.addNode serial kind
    (.nodeAdded node, next)
  | .removeNode id => g.settle .nodeRemoved (g.removeNode id)
  | .patch id name value => g.settle .patched (g.patch id name value)
  | .patchText id name raw => g.settle .patched (g.patchText id name raw)
  | .moveNode id position =>
    g.settle (fun (_ : Unit) => .nodeMoved) ((g.moveNode id position).map (Prod.mk ()))
  | .connect source target => g.settle .connected (g.connect source target)
  | .disconnect id => g.settle .disconnected (g.disconnect id)

end Graph

namespace Command

/-- How many nodes were ever added once the command has been run. -/
def serialAfter (serial : Nat) : Command → Nat
  | addNode _ => serial + 1
  | _ => serial

end Command

end NetEditor
