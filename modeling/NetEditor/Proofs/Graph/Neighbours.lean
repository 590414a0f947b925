-- The law of neighbours. What goes out of a node and what comes into it are read off one list of
-- edges, in the order in which these were made, and as no edge lacks an end no neighbour is lost.
import NetEditor.Proofs.Graph.AllOrNothing
import NetEditor.Proofs.Graph.Staleness
import NetEditor.Proofs.Lists
import Mathlib.Data.Prod.Basic

namespace NetEditor.Graph

variable {g : Graph} {serial first : Nat} {turns : List Turn}

/-! ## Questions -/

theorem ask_eq {α : Type} (g : Graph) (id : NodeId) (answer : Graph → NodeId → α) :
    g.ask id answer =
      if id ∈ g.nodes.map Node.id then .ok (answer g id) else .error (.nodeMissing id) := by
  unfold ask
  cases hn : g.node? id with
  | none => exact (if_neg (node?_eq_none_iff.mp hn)).symm
  | some node =>
    have hmem : id ∈ g.nodes.map Node.id :=
      node?_id hn ▸ List.mem_map_of_mem (mem_of_node? hn)
    exact (if_pos hmem).symm

/-! ## The far ends of edges -/

/-- The nodes at the far ends of the edges that have a node at the near end. Successors and
predecessors only differ by which end is which. -/
def across (g : Graph) (near far : Edge → NodeId) (id : NodeId) : List Node :=
  (g.edges.filter fun edge => near edge = id).filterMap fun edge => g.node? (far edge)

theorem mem_across {near far : Edge → NodeId} {id : NodeId} {node : Node} :
    node ∈ g.across near far id ↔
      ∃ edge ∈ g.edges, near edge = id ∧ g.node? (far edge) = some node := by
  simp only [across, List.mem_filterMap, List.mem_filter, decide_eq_true_eq, and_assoc]

/-- What walking over the edges in one direction relies on. -/
structure Crossable (g : Graph) (near far : Edge → NodeId) : Prop where
  found : ∀ edge ∈ g.edges, ∃ node, g.node? (far edge) = some node
  pairs_nodup : (g.edges.map fun edge => (near edge, far edge)).Nodup

theorem Sound.crossable_forward (h : Sound g serial) :
    g.Crossable Edge.source Edge.target where
  found edge he := by
    obtain ⟨_, target, _, ht⟩ := h.exists_ends he
    exact ⟨target, ht⟩
  pairs_nodup := h.pairs_nodup

theorem Sound.crossable_backward (h : Sound g serial) :
    g.Crossable Edge.target Edge.source where
  found edge he := by
    obtain ⟨source, _, hs, _⟩ := h.exists_ends he
    exact ⟨source, hs⟩
  pairs_nodup := by
    have hswap := h.pairs_nodup.map Prod.swap_injective
    rwa [List.map_map] at hswap

namespace Crossable

variable {near far : Edge → NodeId} (h : g.Crossable near far) (id : NodeId)
include h

/-- No edge lacks its far end, so the nodes there stand one for one in the order of the edges. -/
theorem forall₂_across :
    List.Forall₂ (fun edge node => g.node? (far edge) = some node)
      (g.edges.filter fun edge => near edge = id) (g.across near far id) :=
  forall₂_filterMap fun edge he => h.found edge (List.mem_filter.mp he).1

theorem ids_across : (g.across near far id).map Node.id =
    (g.edges.filter fun edge => near edge = id).map far := by
  rw [← List.forall₂_eq_eq_eq, List.forall₂_map_left_iff, List.forall₂_map_right_iff]
  exact (h.forall₂_across id).flip.imp fun node edge hnode => node?_id hnode

theorem ids_across_nodup : ((g.across near far id).map Node.id).Nodup := by
  rw [h.ids_across id]
  refine List.Nodup.map_on (fun a ha b hb hfar => ?_)
    (h.pairs_nodup.of_map.sublist List.filter_sublist)
  simp only [List.mem_filter, decide_eq_true_eq] at ha hb
  have hpair : (near a, far a) = (near b, far b) := Prod.ext (ha.2.trans hb.2.symm) hfar
  exact List.inj_on_of_nodup_map h.pairs_nodup ha.1 hb.1 hpair

theorem length_across :
    (g.across near far id).length = g.edges.countP fun edge => near edge = id := by
  rw [List.countP_eq_length_filter]
  exact (h.forall₂_across id).length_eq.symm

end Crossable

/-- A node has one successor for each edge that goes out of it, in the order of the edges. -/
theorem Sound.forall₂_successors (h : Sound g serial) (id : NodeId) :
    List.Forall₂ (fun edge node => g.node? edge.target = some node)
      (g.edges.filter fun edge => edge.source = id) (g.successors id) :=
  h.crossable_forward.forall₂_across id

/-- A node has one predecessor for each edge that comes into it, in the order of the edges. -/
theorem Sound.forall₂_predecessors (h : Sound g serial) (id : NodeId) :
    List.Forall₂ (fun edge node => g.node? edge.source = some node)
      (g.edges.filter fun edge => edge.target = id) (g.predecessors id) :=
  h.crossable_backward.forall₂_across id

/-! ## Pairs of nodes -/

def Joins (g : Graph) (source target : NodeId) : Prop :=
  ∃ edge ∈ g.edges, edge.source = source ∧ edge.target = target

theorem isSome_edgeBetween?_iff {source target : NodeId} :
    (g.edgeBetween? source target).isSome ↔ g.Joins source target := by
  simp [edgeBetween?, Joins, List.find?_isSome]

/-- The edge found between two nodes is the only one between them. -/
theorem Sound.edgeBetween?_eq_some_iff (h : Sound g serial) {source target : NodeId} {edge : Edge} :
    g.edgeBetween? source target = some edge ↔
      edge ∈ g.edges ∧ edge.source = source ∧ edge.target = target := by
  constructor
  · exact edgeBetween?_spec
  · rintro ⟨he, rfl, rfl⟩
    exact h.edgeBetween?_of_mem he

theorem Sound.node?_eq_some_iff (h : Sound g serial) {node : Node} (hm : node ∈ g.nodes)
    {id : NodeId} : g.node? id = some node ↔ id = node.id := by
  constructor
  · intro hnode
    exact (node?_id hnode).symm
  · rintro rfl
    exact h.node?_of_mem hm

theorem Sound.mem_successors_iff (h : Sound g serial) {v : Node} (hv : v ∈ g.nodes) {id : NodeId} :
    v ∈ g.successors id ↔ g.Joins id v.id := by
  refine mem_across.trans (exists_congr fun edge => and_congr_right fun _ => ?_)
  rw [h.node?_eq_some_iff hv]

theorem Sound.mem_predecessors_iff (h : Sound g serial) {u : Node} (hu : u ∈ g.nodes)
    {id : NodeId} : u ∈ g.predecessors id ↔ g.Joins u.id id := by
  refine mem_across.trans (exists_congr fun edge => and_congr_right fun _ => ?_)
  rw [h.node?_eq_some_iff hu, and_comm]

/-! ## Counting -/

theorem Sound.countP_pair (h : Sound g serial) (source target : NodeId) :
    (g.edges.countP fun edge => edge.source = source && edge.target = target) =
      if (g.edgeBetween? source target).isSome then 1 else 0 := by
  have hpred : (fun edge : Edge => decide (edge.source = source) && decide (edge.target = target)) =
      (fun pair => pair == (source, target)) ∘ fun edge => (edge.source, edge.target) := by
    funext edge
    rw [Bool.eq_iff_iff]
    simp
  have hmem : (source, target) ∈ (g.edges.map fun edge => (edge.source, edge.target)) ↔
      (g.edgeBetween? source target).isSome := by
    simp [isSome_edgeBetween?_iff, Joins]
  rw [hpred, ← List.countP_map, ← List.count_eq_countP, h.pairs_nodup.count]
  exact if_congr hmem rfl rfl

/-- Of the edges that touch a node, only the one from the node to itself both goes out and comes
in. -/
theorem Sound.length_incident (h : Sound g serial) (id : NodeId) :
    (g.incident id).length + (if (g.edgeBetween? id id).isSome then 1 else 0) =
      (g.successors id).length + (g.predecessors id).length := by
  rw [← h.countP_pair id id]
  have hout := h.crossable_forward.length_across id
  have hin := h.crossable_backward.length_across id
  have htouch : (g.incident id).length =
      g.edges.countP fun edge => edge.source = id || edge.target = id := by
    rw [List.countP_eq_length_filter]
    rfl
  rw [htouch, countP_or_add_countP_and]
  exact congrArg₂ (· + ·) hout.symm hin.symm

/-! ## The order in which edges were made -/

/-- The one edge was last made before the other one was: the turns can be cut so that those after
the cut make the second edge and never the first. -/
def MadeBefore (turns : List Turn) (a b : Edge) : Prop :=
  ∃ earlier later, turns = earlier ++ later ∧ (∃ t ∈ earlier, t.Creates a) ∧
    (∃ t ∈ later, t.Creates b) ∧ ∀ t ∈ later, ¬ t.Creates a

theorem MadeBefore.snoc {t : Turn} {a b : Edge} (h : MadeBefore turns a b)
    (ha : ¬ t.Creates a) : MadeBefore (turns ++ [t]) a b := by
  obtain ⟨earlier, later, rfl, hmade, ⟨u, hu, hub⟩, hnever⟩ := h
  refine ⟨earlier, later ++ [t], by rw [List.append_assoc], hmade,
    ⟨u, List.mem_append_left _ hu, hub⟩, ?_⟩
  rw [List.forall_mem_append, List.forall_mem_singleton]
  exact ⟨hnever, ha⟩

/-- A turn takes edges out of the list or puts a new one at its end. -/
theorem Turn.edges_after {t : Turn} (hr : Ran t.before serial t.command t.outcome t.after) :
    t.after.edges.Sublist t.before.edges ∨
      ∃ edge ∉ t.before.edges, t.after.edges = t.before.edges ++ [edge] := by
  obtain ⟨g, c, outcome, next⟩ := t
  simp only at hr ⊢
  cases hr with
  | removed => exact Or.inl List.filter_sublist
  | disconnected => exact Or.inl List.eraseP_sublist
  | connected hs ht hnew =>
    refine Or.inr ⟨_, fun hm => ?_, rfl⟩
    exact edgeBetween?_eq_none_iff.mp hnew _ hm ⟨rfl, rfl⟩
  | _ => exact Or.inl (List.Sublist.refl _)

/-- The edges stand in the order in which they were made. A turn makes none of those that it finds,
so what holds of two of them stays true, and the one that it makes comes after all others. -/
theorem pairwise_madeBefore (h : History .empty first turns g serial) :
    g.edges.Pairwise (MadeBefore turns) := by
  induction h with
  | nil => exact .nil
  | elsewhere _ _ ih => exact ih
  | @snoc turns g serial c hg ih =>
    have hkept : g.edges.Pairwise (MadeBefore (turns ++ [g.turn serial c])) :=
      ih.imp_of_mem fun ha _ hab => hab.snoc fun hcreates => hcreates.1 ha
    rcases Turn.edges_after (ran_turn g serial c) with hsub | ⟨new, hnew, hafter⟩
    · exact hkept.sublist hsub
    · rw [hafter, List.pairwise_append]
      refine ⟨hkept, List.pairwise_singleton _ _, fun edge he other ho => ?_⟩
      obtain rfl := List.mem_singleton.mp ho
      obtain ⟨before, made, after, hturns, _, hmade, _⟩ := exists_creation hg edge he
      have hcreated : (g.turn serial c).Creates other := ⟨hnew, by rw [hafter]; simp⟩
      refine ⟨turns, [g.turn serial c], rfl, ⟨made, by simp [hturns], hmade⟩,
        ⟨_, List.mem_singleton_self _, hcreated⟩, ?_⟩
      rw [List.forall_mem_singleton]
      exact fun hcreates => hcreates.1 he

/-! ## The law -/

structure NeighboursComplete (turns : List Turn) (g : Graph) : Prop where
  /-- A question about a node of the graph is answered, and one about any other node fails. -/
  answered : ∀ (id : NodeId) (neighbours : Graph → NodeId → List Node),
    g.ask id neighbours =
      if id ∈ g.nodes.map Node.id then .ok (neighbours g id) else .error (.nodeMissing id)
  dual : ∀ u ∈ g.nodes, ∀ v ∈ g.nodes,
    (v ∈ g.successors u.id ↔ u ∈ g.predecessors v.id) ∧
      (u ∈ g.predecessors v.id ↔ ∃ edge, g.edgeBetween? u.id v.id = some edge)
  edge_between : ∀ source target edge, g.edgeBetween? source target = some edge ↔
    edge ∈ g.edges ∧ edge.source = source ∧ edge.target = target
  successors_distinct : ∀ id, ((g.successors id).map Node.id).Nodup
  predecessors_distinct : ∀ id, ((g.predecessors id).map Node.id).Nodup
  one_successor_each : ∀ id, List.Forall₂ (fun edge node => g.node? edge.target = some node)
    (g.edges.filter fun edge => edge.source = id) (g.successors id)
  one_predecessor_each : ∀ id, List.Forall₂ (fun edge node => g.node? edge.source = some node)
    (g.edges.filter fun edge => edge.target = id) (g.predecessors id)
  /-- The order of the edges, and so of the neighbours, is the one in which they were made. -/
  in_order : g.edges.Pairwise (MadeBefore turns)
  /-- An edge from a node to itself touches it once, and makes it a neighbour on both sides. -/
  incident_counted : ∀ id,
    (g.incident id).length + (if (g.edgeBetween? id id).isSome then 1 else 0) =
      (g.successors id).length + (g.predecessors id).length

/-- In every graph that commands make of an empty one, a node is a successor of another just if
this one is its predecessor and just if an edge runs between them. Each edge counts once among the
successors of its source and once among the predecessors of its target, in the order in which the
edges were made, and the edges that touch a node are all told by its neighbours. -/
theorem neighbours_are_dual_and_none_is_lost (first : Nat) (turns : List Turn) (g : Graph)
    (serial : Nat) (h : History .empty first turns g serial) : NeighboursComplete turns g where
  answered id neighbours := ask_eq g id neighbours
  dual u hu v hv := by
    have hsuccessor : v ∈ g.successors u.id ↔ g.Joins u.id v.id :=
      h.sound.mem_successors_iff hv
    have hpredecessor : u ∈ g.predecessors v.id ↔ g.Joins u.id v.id :=
      h.sound.mem_predecessors_iff hu
    have hedge : (∃ edge, g.edgeBetween? u.id v.id = some edge) ↔ g.Joins u.id v.id :=
      Option.isSome_iff_exists.symm.trans isSome_edgeBetween?_iff
    exact ⟨hsuccessor.trans hpredecessor.symm, hpredecessor.trans hedge.symm⟩
  edge_between _ _ _ := h.sound.edgeBetween?_eq_some_iff
  successors_distinct := h.sound.crossable_forward.ids_across_nodup
  predecessors_distinct := h.sound.crossable_backward.ids_across_nodup
  one_successor_each := h.sound.forall₂_successors
  one_predecessor_each := h.sound.forall₂_predecessors
  in_order := pairwise_madeBefore h
  incident_counted := h.sound.length_incident

/-- A linear layer that goes into a second one, into an activation and into itself, the first of
these edges made anew at the end. -/
def rewired : List Command :=
  [.addNode .linear, .addNode .linear, .addNode .relu, .connect ⟨"linear_1"⟩ ⟨"linear_2"⟩,
    .connect ⟨"linear_1"⟩ ⟨"relu_3"⟩, .connect ⟨"linear_1"⟩ ⟨"linear_1"⟩,
    .disconnect ⟨"linear_1->linear_2"⟩, .connect ⟨"linear_1"⟩ ⟨"linear_2"⟩]

theorem an_edge_made_anew_comes_last :
    let turns := play .empty 0 rewired
    let g := (run .empty 0 rewired).1
    NeighboursComplete turns g ∧
      (g.successors ⟨"linear_1"⟩).map Node.id = [⟨"relu_3"⟩, ⟨"linear_1"⟩, ⟨"linear_2"⟩] ∧
      (g.predecessors ⟨"linear_1"⟩).map Node.id = [⟨"linear_1"⟩] ∧
      (g.incident ⟨"linear_1"⟩).length = 3 := by
  intro turns g
  have h : History .empty 0 turns g _ := History.nil.play rewired
  exact ⟨neighbours_are_dual_and_none_is_lost 0 turns g _ h, by decide +kernel⟩

end NetEditor.Graph
