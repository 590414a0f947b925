-- What a command can come to: one case for each way in which a command ends, with the graph that
-- it leaves. The laws of graphs go by these cases and never open an edit again.
import NetEditor.Graph.Command

namespace NetEditor

namespace Command

/-- The node, parameter and number of a command that sets a parameter, if it has a number. -/
def setting? : Command → Option (NodeId × String × Double)
  | patch id name value => some (id, name, value)
  | patchText id name raw => (Graph.typedNumber? raw).map fun value => (id, name, value)
  | _ => none

/-- The parameter, and its node, that a command is to set. -/
def parameter? : Command → Option (NodeId × String)
  | patch id name _ | patchText id name _ => some (id, name)
  | _ => none

/-- The one node that a command works on. -/
def subject? : Command → Option NodeId
  | removeNode id | patch id _ _ | patchText id _ _ | moveNode id _ => some id
  | addNode _ | connect _ _ | disconnect _ => none

theorem subject?_of_setting? {c : Command} {id : NodeId} {name : String} {value : Double}
    (h : c.setting? = some (id, name, value)) : c.subject? = some id := by
  cases c with
  | patch id' name' value' =>
    cases h
    rfl
  | patchText id' name' raw =>
    simp only [setting?, Option.map_eq_some_iff, Prod.mk.injEq] at h
    obtain ⟨_, _, rfl, _⟩ := h
    rfl
  | _ => simp [setting?] at h

theorem parameter?_of_setting? {c : Command} {id : NodeId} {name : String} {value : Double}
    (h : c.setting? = some (id, name, value)) : c.parameter? = some (id, name) := by
  cases c with
  | patch id' name' value' =>
    cases h
    rfl
  | patchText id' name' raw =>
    simp only [setting?, Option.map_eq_some_iff, Prod.mk.injEq] at h
    obtain ⟨_, _, rfl, rfl, _⟩ := h
    rfl
  | _ => simp [setting?] at h

theorem le_serialAfter (serial : Nat) (c : Command) : serial ≤ c.serialAfter serial := by
  cases c <;> simp [serialAfter]

end Command

namespace Graph

/-! ## The graphs that edits leave -/

/-- The graph with one more node, named with the next serial number. -/
def withNode (g : Graph) (serial : Nat) (kind : Layer.Kind) : Graph :=
  g.commit (g.nodes ++ [Node.initial (NodeId.numbered kind (serial + 1)) kind]) g.edges

/-- The graph without a node and without the edges that touch it. -/
def withoutNode (g : Graph) (id : NodeId) : Graph :=
  g.commit (g.nodes.eraseP fun other => other.id = id) (g.edges.filter fun edge => !edge.touches id)

def withChange (g : Graph) (id : NodeId) (change : Node → Node) : Graph :=
  g.commit (updateNode id change g.nodes) g.edges

def withEdge (g : Graph) (source target : NodeId) : Graph :=
  g.commit g.nodes (g.edges ++ [Edge.between source target])

def withoutEdge (g : Graph) (id : EdgeId) : Graph :=
  g.commit g.nodes (g.edges.eraseP fun other => other.id = id)

/-- The hints that come with a parameter of a node set to a new value. -/
def hintsAfter (next : Graph) (node : Node) (name : String) : List Hint :=
  if node.kind.outputKey = some name then next.hints node.id else []

/-! ## The cases -/

/-- Run on a graph, a command ends with this outcome and leaves this graph. -/
inductive Ran (g : Graph) (serial : Nat) : Command → Outcome → Graph → Prop
  | added (kind : Layer.Kind) :
      Ran g serial (.addNode kind)
        (.nodeAdded (Node.initial (NodeId.numbered kind (serial + 1)) kind))
        (g.withNode serial kind)
  | removed {id : NodeId} {node : Node} (h : g.node? id = some node) :
      Ran g serial (.removeNode id) (.nodeRemoved node) (g.withoutNode id)
  | moved {id : NodeId} {node : Node} (position : Position) (h : g.node? id = some node) :
      Ran g serial (.moveNode id position) .nodeMoved
        (g.withChange id fun node => { node with position := position })
  | applied {c : Command} {id : NodeId} {name : String} {value : Double} {node : Node}
      {record : Layer.Record} (hc : c.setting? = some (id, name, value))
      (h : g.node? id = some node) (hr : node.record.set name value = .ok record) :
      Ran g serial c
        (.patched (.applied ((g.withChange id fun node => { node with record := record }).hintsAfter
          node name)))
        (g.withChange id fun node => { node with record := record })
  | connected {source target : NodeId} {s t : Node} (hs : g.node? source = some s)
      (ht : g.node? target = some t) (hnew : g.edgeBetween? source target = none)
      (hr : s.refusal? t = none) :
      Ran g serial (.connect source target) (.connected (EdgeId.between source target))
        (g.withEdge source target)
  | disconnected {id : EdgeId} {edge : Edge} (h : g.edge? id = some edge) :
      Ran g serial (.disconnect id) (.disconnected edge) (g.withoutEdge id)
  -- From here on the graph stays as it was.
  | kept {source target : NodeId} {s t : Node} {edge : Edge} (hs : g.node? source = some s)
      (ht : g.node? target = some t) (he : g.edgeBetween? source target = some edge) :
      Ran g serial (.connect source target) (.connected edge.id) g
  | rejected {c : Command} {id : NodeId} {name : String} {value : Double} {node : Node}
      {fault : Layer.Fault} (hc : c.setting? = some (id, name, value))
      (h : g.node? id = some node) (hr : node.record.set name value = .error fault) :
      Ran g serial c (.patched (.rejected fault)) g
  | notNumeric {id : NodeId} {name raw : String} {node : Node} (hv : typedNumber? raw = none)
      (h : g.node? id = some node) :
      Ran g serial (.patchText id name raw) (.patched (.rejected (.notNumeric name raw))) g
  | missing {c : Command} {id : NodeId} (hc : c.subject? = some id) (h : g.node? id = none) :
      Ran g serial c (.failed (.nodeMissing id)) g
  | missingSource {source target : NodeId} (hs : g.node? source = none) :
      Ran g serial (.connect source target) (.failed (.nodeMissing source)) g
  | missingTarget {source target : NodeId} {s : Node} (hs : g.node? source = some s)
      (ht : g.node? target = none) :
      Ran g serial (.connect source target) (.failed (.nodeMissing target)) g
  | refused {source target : NodeId} {s t : Node} {reason : Refusal}
      (hs : g.node? source = some s) (ht : g.node? target = some t)
      (hnew : g.edgeBetween? source target = none) (hr : s.refusal? t = some reason) :
      Ran g serial (.connect source target)
        (.failed (.connectionRefused s.kind t.kind reason)) g
  | missingEdge {id : EdgeId} (h : g.edge? id = none) :
      Ran g serial (.disconnect id) (.failed (.edgeMissing id)) g

variable {g : Graph} {serial : Nat}

theorem ran_patch {c : Command} {id : NodeId} {name : String} {value : Double}
    (hc : c.setting? = some (id, name, value)) :
    Ran g serial c (g.settle .patched (g.patch id name value)).1
      (g.settle .patched (g.patch id name value)).2 := by
  unfold patch
  cases hn : g.node? id with
  | none => exact .missing (Command.subject?_of_setting? hc) hn
  | some node =>
    simp only
    cases hr : node.record.set name value with
    | error fault => exact .rejected hc hn hr
    | ok record =>
      obtain rfl := node?_id hn
      exact .applied hc hn hr

theorem ran_patchText (id : NodeId) (name raw : String) :
    Ran g serial (.patchText id name raw) (g.settle .patched (g.patchText id name raw)).1
      (g.settle .patched (g.patchText id name raw)).2 := by
  unfold patchText
  cases hv : typedNumber? raw with
  | some value => exact ran_patch (by simp [Command.setting?, hv])
  | none =>
    simp only
    cases hn : g.node? id with
    | none => exact .missing rfl hn
    | some node => exact .notNumeric hv hn

theorem ran_connect (source target : NodeId) :
    Ran g serial (.connect source target) (g.settle .connected (g.connect source target)).1
      (g.settle .connected (g.connect source target)).2 := by
  unfold connect
  cases hs : g.node? source with
  | none => exact .missingSource hs
  | some s =>
    cases ht : g.node? target with
    | none => exact .missingTarget hs ht
    | some t =>
      simp only
      cases he : g.edgeBetween? source target with
      | some edge => exact .kept hs ht he
      | none =>
        simp only
        cases hr : s.refusal? t with
        | some reason => exact .refused hs ht he hr
        | none => exact .connected hs ht he hr

/-- A command that sets a parameter to a number comes to the same whether the number was typed or
not. -/
theorem apply_of_setting {c : Command} {id : NodeId} {name : String} {value : Double}
    (hc : c.setting? = some (id, name, value)) :
    g.apply serial c = g.settle .patched (g.patch id name value) := by
  cases c with
  | patch id' name' value' =>
    cases hc
    rfl
  | patchText id' name' raw =>
    simp only [Command.setting?, Option.map_eq_some_iff, Prod.mk.injEq] at hc
    obtain ⟨_, hv, rfl, rfl, rfl⟩ := hc
    simp only [apply, patchText, hv]
  | _ => simp [Command.setting?] at hc

theorem ran_apply (g : Graph) (serial : Nat) (c : Command) :
    Ran g serial c (g.apply serial c).1 (g.apply serial c).2 := by
  cases c with
  | addNode kind => exact .added kind
  | removeNode id =>
    simp only [apply, removeNode]
    cases hn : g.node? id with
    | none => exact .missing rfl hn
    | some node => exact .removed hn
  | patch id name value => exact ran_patch rfl
  | patchText id name raw => exact ran_patchText id name raw
  | moveNode id position =>
    simp only [apply, moveNode]
    cases hn : g.node? id with
    | none => exact .missing rfl hn
    | some node => exact .moved position hn
  | connect source target => exact ran_connect source target
  | disconnect id =>
    simp only [apply, disconnect]
    cases he : g.edge? id with
    | none => exact .missingEdge he
    | some edge => exact .disconnected he

end Graph

end NetEditor
