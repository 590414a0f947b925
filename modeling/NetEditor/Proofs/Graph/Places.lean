-- The law of places. Where a node lies on the sheet is for people to see and nothing else looks at
-- it: moves may come anywhere between commands, and all that is not a place stays the same.
import NetEditor.Proofs.Graph.Hints
import NetEditor.Proofs.Training.Requests

namespace NetEditor

/-! ## All but the places -/

/-- The node back where new nodes appear. -/
def Node.unplaced (node : Node) : Node := { node with position := .initial }

-- Closed by rewriting: `rfl` would compute the place.
theorem Node.unplaced_unplaced (node : Node) : node.unplaced.unplaced = node.unplaced := by
  simp only [unplaced]

/-- The outcome with the node that it tells of back where new nodes appear. -/
def Outcome.unplaced : Outcome → Outcome
  | nodeAdded node => nodeAdded node.unplaced
  | nodeRemoved node => nodeRemoved node.unplaced
  | outcome => outcome

namespace Graph

/-- The graph with all nodes back where new nodes appear, and with no edit counted. -/
def unplaced (g : Graph) : Graph := ⟨g.nodes.map Node.unplaced, g.edges, 0⟩

theorem map_unplaced_unplaced (nodes : List Node) :
    (nodes.map Node.unplaced).map Node.unplaced = nodes.map Node.unplaced := by
  rw [List.map_map]
  exact List.map_congr_left fun node _ => node.unplaced_unplaced

variable (g : Graph)

theorem unplaced_unplaced : g.unplaced.unplaced = g.unplaced := by
  simp only [unplaced, map_unplaced_unplaced]

/-! ## What is found without places -/

theorem node?_unplaced (id : NodeId) : g.unplaced.node? id = (g.node? id).map Node.unplaced := by
  unfold node? unplaced
  rw [List.find?_map]
  rfl

theorem successors_unplaced (id : NodeId) :
    g.unplaced.successors id = (g.successors id).map Node.unplaced := by
  unfold successors
  rw [List.map_filterMap]
  simp only [node?_unplaced]
  rfl

/-- No hint looks at a place. -/
theorem hints_unplaced (id : NodeId) : g.unplaced.hints id = g.hints id := by
  unfold hints
  rw [node?_unplaced, successors_unplaced]
  cases g.node? id with
  | none => rfl
  | some source => exact List.map_map

/-! ## What edits leave without places -/

/-- A move leaves everything but the place. -/
theorem unplaced_move (id : NodeId) (position : Position) :
    (g.withChange id fun node => { node with position := position }).unplaced = g.unplaced := by
  have hkept : (updateNode id (fun node => { node with position := position }) g.nodes).map
      Node.unplaced = g.nodes.map Node.unplaced := map_updateNode Node.unplaced fun _ _ => rfl
  simp only [unplaced, withChange, commit, hkept]

theorem unplaced_withRecord (id : NodeId) (record : Layer.Record) :
    (g.unplaced.withRecord id record).unplaced = (g.withRecord id record).unplaced := by
  have hcomm := map_updateNode_comm .unplaced (fun node => { node with record := record })
    (fun node => { node with record := record }) (fun _ => rfl) (fun _ => rfl) id
  simp only [unplaced, withRecord, withChange, commit, hcomm, map_unplaced_unplaced]

theorem unplaced_withoutNode (id : NodeId) :
    (g.unplaced.withoutNode id).unplaced = (g.withoutNode id).unplaced := by
  simp only [unplaced, withoutNode, commit, List.eraseP_map, map_unplaced_unplaced]
  rfl

theorem unplaced_withNode (serial : Nat) (kind : Layer.Kind) :
    (g.unplaced.withNode serial kind).unplaced = (g.withNode serial kind).unplaced := by
  simp only [unplaced, withNode, commit, List.map_append, map_unplaced_unplaced]

theorem unplaced_commit_edges (edges : List Edge) :
    (g.unplaced.commit g.unplaced.nodes edges).unplaced = (g.commit g.nodes edges).unplaced := by
  simp only [unplaced, commit, map_unplaced_unplaced]

/-! ## Commands without places -/

/-- What a command comes to and what it leaves, but for the places. -/
def unplacedEnd (ended : Outcome × Graph) : Outcome × Graph := (ended.1.unplaced, ended.2.unplaced)

theorem removeNode_unplaced (id : NodeId) :
    unplacedEnd (g.unplaced.settle .nodeRemoved (g.unplaced.removeNode id)) =
      unplacedEnd (g.settle .nodeRemoved (g.removeNode id)) := by
  unfold removeNode
  rw [node?_unplaced]
  cases g.node? id with
  | none => exact Prod.ext rfl g.unplaced_unplaced
  | some node => exact Prod.ext rfl (g.unplaced_withoutNode id)

theorem patch_unplaced (id : NodeId) (name : String) (value : Double) :
    unplacedEnd (g.unplaced.settle .patched (g.unplaced.patch id name value)) =
      unplacedEnd (g.settle .patched (g.patch id name value)) := by
  unfold patch
  rw [node?_unplaced]
  cases g.node? id with
  | none => exact Prod.ext rfl g.unplaced_unplaced
  | some node =>
    have hrecord : node.unplaced.record = node.record := rfl
    have hkind : node.unplaced.kind = node.kind := rfl
    simp only [Option.map_some, hrecord, hkind]
    cases node.record.set name value with
    | error fault => exact Prod.ext rfl g.unplaced_unplaced
    | ok record =>
      have hhints : (g.unplaced.withRecord id record).hints id =
          (g.withRecord id record).hints id := by
        rw [← hints_unplaced, unplaced_withRecord, hints_unplaced]
      refine Prod.ext ?_ (g.unplaced_withRecord id record)
      show Outcome.patched (.applied (if node.kind.outputKey = some name then
        (g.unplaced.withRecord id record).hints id else [])) = _
      rw [hhints]
      rfl

theorem patchText_unplaced (id : NodeId) (name raw : String) :
    unplacedEnd (g.unplaced.settle .patched (g.unplaced.patchText id name raw)) =
      unplacedEnd (g.settle .patched (g.patchText id name raw)) := by
  unfold patchText
  cases typedNumber? raw with
  | some value => exact g.patch_unplaced id name value
  | none =>
    rw [node?_unplaced]
    cases g.node? id <;> exact Prod.ext rfl g.unplaced_unplaced

theorem connect_unplaced (source target : NodeId) :
    unplacedEnd (g.unplaced.settle .connected (g.unplaced.connect source target)) =
      unplacedEnd (g.settle .connected (g.connect source target)) := by
  have hbetween : g.unplaced.edgeBetween? source target = g.edgeBetween? source target := rfl
  unfold connect
  rw [node?_unplaced, node?_unplaced, hbetween]
  cases g.node? source with
  | none => exact Prod.ext rfl g.unplaced_unplaced
  | some s =>
    cases g.node? target with
    | none => exact Prod.ext rfl g.unplaced_unplaced
    | some t =>
      have hrefusal : s.unplaced.refusal? t.unplaced = s.refusal? t := rfl
      simp only [Option.map_some, hrefusal]
      cases g.edgeBetween? source target with
      | some edge => exact Prod.ext rfl g.unplaced_unplaced
      | none =>
        cases s.refusal? t with
        | some reason => exact Prod.ext rfl g.unplaced_unplaced
        | none => exact Prod.ext rfl (g.unplaced_commit_edges _)

theorem disconnect_unplaced (id : EdgeId) :
    unplacedEnd (g.unplaced.settle .disconnected (g.unplaced.disconnect id)) =
      unplacedEnd (g.settle .disconnected (g.disconnect id)) := by
  have hedge : g.unplaced.edge? id = g.edge? id := rfl
  unfold disconnect
  rw [hedge]
  cases g.edge? id with
  | none => exact Prod.ext rfl g.unplaced_unplaced
  | some edge => exact Prod.ext rfl (g.unplaced_commit_edges _)

/-- A move is told to have taken place, or that there is no such node, and leaves all but the
place. -/
theorem moveNode_unplaced (serial : Nat) (id : NodeId) (position : Position) :
    unplacedEnd (g.unplaced.apply serial (.moveNode id position)) =
      unplacedEnd (g.apply serial (.moveNode id position)) ∧
    (g.apply serial (.moveNode id position)).2.unplaced = g.unplaced := by
  simp only [apply, moveNode]
  rw [node?_unplaced]
  cases g.node? id with
  | none => exact ⟨Prod.ext rfl g.unplaced_unplaced, rfl⟩
  | some node =>
    refine ⟨Prod.ext rfl ?_, g.unplaced_move id position⟩
    exact (g.unplaced.unplaced_move id position).trans
      (g.unplaced_unplaced.trans (g.unplaced_move id position).symm)

/-- But for the places, a command comes to the same on a graph without places. -/
theorem apply_unplaced (serial : Nat) (c : Command) :
    unplacedEnd (g.unplaced.apply serial c) = unplacedEnd (g.apply serial c) := by
  cases c with
  | addNode kind => exact Prod.ext rfl (g.unplaced_withNode serial kind)
  | removeNode id => exact g.removeNode_unplaced id
  | patch id name value => exact g.patch_unplaced id name value
  | patchText id name raw => exact g.patchText_unplaced id name raw
  | moveNode id position => exact (g.moveNode_unplaced serial id position).1
  | connect source target => exact g.connect_unplaced source target
  | disconnect id => exact g.disconnect_unplaced id

/-! ## Runs -/

variable {g} {g' : Graph}

/-- On two graphs that differ in places a command comes to the same but for places. -/
theorem apply_of_unplaced_eq (h : g.unplaced = g'.unplaced) (serial : Nat) (c : Command) :
    (g.apply serial c).1.unplaced = (g'.apply serial c).1.unplaced ∧
      (g.apply serial c).2.unplaced = (g'.apply serial c).2.unplaced := by
  have hends : unplacedEnd (g.apply serial c) = unplacedEnd (g'.apply serial c) := by
    rw [← apply_unplaced, h, apply_unplaced]
  exact Prod.mk.inj hends

/-- A command of a run, or a move that was put in between. -/
inductive Stroke
  | own (c : Command)
  | extra (id : NodeId) (position : Position)

namespace Stroke

def command : Stroke → Command
  | own c => c
  | extra id position => .moveNode id position

def own? : Stroke → Option Command
  | own c => some c
  | extra _ _ => none

end Stroke

/-- What the own commands of a run come to. -/
def ownOutcomes (g : Graph) (serial : Nat) : List Stroke → List Outcome
  | [] => []
  | .own c :: rest => (g.apply serial c).1 ::
      (g.apply serial c).2.ownOutcomes (c.serialAfter serial) rest
  | .extra id position :: rest =>
      (g.apply serial (.moveNode id position)).2.ownOutcomes serial rest

/-- The run with moves put in goes along with the run without. -/
theorem run_of_unplaced_eq (h : g.unplaced = g'.unplaced) (serial : Nat) (strokes : List Stroke) :
    ((g.play serial (strokes.filterMap Stroke.own?)).map fun t => t.outcome.unplaced) =
        (g'.ownOutcomes serial strokes).map Outcome.unplaced ∧
      (g.run serial (strokes.filterMap Stroke.own?)).1.unplaced =
        (g'.run serial (strokes.map Stroke.command)).1.unplaced := by
  induction strokes generalizing g g' serial with
  | nil => exact ⟨rfl, h⟩
  | cons stroke rest ih =>
    cases stroke with
    | own c =>
      obtain ⟨hout, hnext⟩ := apply_of_unplaced_eq h serial c
      obtain ⟨houts, hlast⟩ := ih hnext (c.serialAfter serial)
      exact ⟨List.cons_eq_cons.mpr ⟨hout, houts⟩, hlast⟩
    | extra id position =>
      have hmoved := (g'.moveNode_unplaced serial id position).2
      exact ih (h.trans hmoved.symm) serial

/-! ## The law -/

open Training (Request Entry Schedule)
open Training.Request (AlikeButPlaces)

theorem alike_of_unplaced_eq (h : g.unplaced = g'.unplaced) : AlikeButPlaces Eq g g' := by
  obtain ⟨hnodes, hedges, _⟩ := Graph.mk.inj h
  refine ⟨?_, hedges⟩
  rw [← List.forall₂_eq_eq_eq, List.forall₂_map_left_iff, List.forall₂_map_right_iff] at hnodes
  refine hnodes.imp fun a b hab => ?_
  obtain ⟨hid, hrecord, _⟩ := Node.mk.inj hab
  exact ⟨hid, hrecord⟩

/-- The service is told no place. -/
theorem build_unplaced (g : Graph) (samples : List Sample) (schedule : Schedule) :
    Request.build g.unplaced samples schedule = Request.build g samples schedule := by
  have hentry : ∀ node : Node, Entry.ofNode node.unplaced = Entry.ofNode node := fun node => by
    simp only [Entry.ofNode, Node.unplaced, Node.kind]
  simp only [Request.build, unplaced, List.map_map, Function.comp_def, hentry]

/-- Two runs, each with the outcomes of the same commands and the graph at its end, do not differ
but in places and in the count of edits. -/
structure SameButPlaces (plain moved : List Outcome × Graph) : Prop where
  outcomes : plain.1.map Outcome.unplaced = moved.1.map Outcome.unplaced
  /-- The nodes have the same names, kinds and values, and the edges are the same, in order. -/
  graphs : AlikeButPlaces Eq plain.2 moved.2
  requests : ∀ samples schedule,
    Request.build plain.2 samples schedule = Request.build moved.2 samples schedule

/-- Wherever moves are put into a run of commands, of whatever nodes and to whatever places, all
other commands come to the same but for the places of the nodes that they tell of, and the graphs
at the end have the same nodes and edges and make the same requests. -/
theorem moves_are_for_display_only (g : Graph) (serial : Nat) (strokes : List Stroke) :
    let own := strokes.filterMap Stroke.own?
    let all := strokes.map Stroke.command
    SameButPlaces ((g.play serial own).map Turn.outcome, (g.run serial own).1)
      (g.ownOutcomes serial strokes, (g.run serial all).1) := by
  intro own all
  obtain ⟨houts, hlast⟩ := run_of_unplaced_eq (rfl : g.unplaced = g.unplaced) serial strokes
  refine ⟨?_, alike_of_unplaced_eq hlast, fun samples schedule => ?_⟩
  · rw [List.map_map]
    exact houts
  · rw [← build_unplaced, hlast, build_unplaced]

-- One layer is moved off the sheet and another is not there. Only the place of the layer that is
-- removed in the end tells.
example :
    let strokes : List Stroke := [.own (.addNode .linear),
      .extra ⟨"linear_1"⟩ ⟨.zero .single false, .nan⟩, .extra ⟨"linear_2"⟩ .initial,
      .own (.removeNode ⟨"linear_1"⟩)]
    let plain := (play .empty 0 (strokes.filterMap Stroke.own?)).map Turn.outcome
    let moved := ownOutcomes .empty 0 strokes
    plain ≠ moved ∧ plain.map Outcome.unplaced = moved.map Outcome.unplaced := by
  decide +kernel

end Graph

end NetEditor
