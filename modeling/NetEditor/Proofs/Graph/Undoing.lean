-- The law of undoing. Whatever was done to a new node and to the edges at it, once the node is
-- removed the graph is as it was before the node was added, but for the count of edits.
import NetEditor.Proofs.Graph.Frame

namespace NetEditor.Graph

variable {base start g : Graph} {serial first : Nat} {turns : List Turn} {x : NodeId}
  {c : Command}

/-! ## Commands about one node -/

/-- The command is about one node of the graph: it patches or moves this node, connects it with some
node, or takes away an edge at it. -/
def Concerns (g : Graph) (x : NodeId) : Command → Prop
  | .patch id _ _ | .patchText id _ _ | .moveNode id _ => id = x
  | .connect source target => source = x ∨ target = x
  | .disconnect id => ∀ edge ∈ g.edges, edge.id = id → edge.touches x = true
  | .addNode _ | .removeNode _ => False

instance (g : Graph) (x : NodeId) (c : Command) : Decidable (g.Concerns x c) :=
  match c with
  | .patch id _ _ | .patchText id _ _ | .moveNode id _ => inferInstanceAs (Decidable (id = x))
  | .connect source target => inferInstanceAs (Decidable (source = x ∨ target = x))
  | .disconnect id =>
    inferInstanceAs (Decidable (∀ edge ∈ g.edges, edge.id = id → edge.touches x = true))
  | .addNode _ | .removeNode _ => inferInstanceAs (Decidable False)

theorem Concerns.of_setting {id : NodeId} {name : String} {value : Double} (h : g.Concerns x c)
    (hc : c.setting? = some (id, name, value)) : id = x := by
  have hsubject := Command.subject?_of_setting? hc
  cases c with
  | patch | patchText => exact (Option.some.inj hsubject).symm.trans h
  | _ => simp [Command.setting?] at hc

/-! ## A graph that grows at one node -/

/-- The graph is another one with one more node at the end and with more edges, all of them at that
node. -/
structure GrownAt (x : NodeId) (base g : Graph) : Prop where
  nodes : ∃ node, g.nodes = base.nodes ++ [node] ∧ node.id = x
  edges : (g.edges.filter fun edge => !edge.touches x) = base.edges

theorem GrownAt.withChange (h : GrownAt x base g) (hnew : x ∉ base.nodes.map Node.id)
    {change : Node → Node} (hid : ∀ node, (change node).id = node.id) :
    GrownAt x base (g.withChange x change) := by
  obtain ⟨node, hnodes, hnode⟩ := h.nodes
  refine ⟨⟨change node, ?_, (hid node).trans hnode⟩, h.edges⟩
  have hfront : ∀ other ∈ base.nodes, other.id ≠ x :=
    fun other ho heq => hnew (heq ▸ List.mem_map_of_mem ho)
  simp only [Graph.withChange, commit, hnodes]
  exact updateNode_of_split hfront hnode

/-- A command about the node leaves the rest of the graph. -/
theorem GrownAt.command (h : GrownAt x base g) (hnew : x ∉ base.nodes.map Node.id) (serial : Nat)
    (hc : g.Concerns x c) : GrownAt x base (g.apply serial c).2 := by
  have hran := ran_apply g serial c
  generalize (g.apply serial c).1 = outcome, (g.apply serial c).2 = next at hran ⊢
  cases hran with
  | added => exact hc.elim
  | removed => exact hc.elim
  | moved position hn =>
    obtain rfl := hc
    exact h.withChange hnew fun _ => rfl
  | applied hset hn hr =>
    obtain rfl := hc.of_setting hset
    exact h.withChange hnew fun _ => rfl
  | @connected source target s t hs ht hedge hr =>
    have htouch : (Edge.between source target).touches x = true := by
      rcases hc with rfl | rfl <;> simp [Edge.touches, Edge.between]
    refine ⟨h.nodes, ?_⟩
    simpa [withEdge, commit, htouch] using h.edges
  | @disconnected id edge he =>
    refine ⟨h.nodes, ?_⟩
    simp only [withoutEdge, commit]
    rw [filter_eraseP (by simpa [Concerns] using hc)]
    exact h.edges
  | _ => exact h

/-- So do any number of such commands. -/
theorem GrownAt.history (h : History start first turns g serial) (hstart : GrownAt x base start)
    (hnew : x ∉ base.nodes.map Node.id) (hc : ∀ t ∈ turns, t.before.Concerns x t.command) :
    GrownAt x base g := by
  induction h with
  | nil => exact hstart
  | elsewhere _ _ ih => exact ih hc
  | @snoc turns g serial c _ ih =>
    rw [List.forall_mem_append, List.forall_mem_singleton] at hc
    exact (ih hc.1).command hnew serial hc.2

theorem Sound.grownAt_withNode (h : Sound g serial) (kind : Layer.Kind) :
    GrownAt (NodeId.numbered kind (serial + 1)) g (g.withNode serial kind) := by
  refine ⟨⟨_, rfl, rfl⟩, List.filter_eq_self.mpr fun edge he => ?_⟩
  obtain ⟨hsource, htarget⟩ := h.ends_listed edge he
  have hnew := h.next_notMem kind
  simp only [Edge.touches, Bool.not_eq_eq_eq_not, Bool.not_true, Bool.or_eq_false_iff,
    decide_eq_false_iff_not]
  exact ⟨fun heq => hnew (heq ▸ hsource), fun heq => hnew (heq ▸ htarget)⟩

/-- The node is found and removed, and all that has grown goes with it. -/
theorem GrownAt.removeNode (h : GrownAt x base g) (hsound : Sound g serial) :
    ∃ node ∈ g.nodes, node.id = x ∧ g.apply serial (.removeNode x) =
      (.nodeRemoved node, ⟨base.nodes, base.edges, g.revision + 1⟩) := by
  obtain ⟨⟨node, hnodes, rfl⟩, hedges⟩ := h
  refine ⟨node, hnodes ▸ List.mem_append_right _ List.mem_cons_self, rfl, ?_⟩
  rw [apply_of_effect hsound (.removed hnodes), List.append_nil, hedges, commit]

/-! ## The law -/

/-- A node is added, then any commands are run about it alone, whether they take effect or not, and
at last it is removed. It is found, and the nodes and edges are the ones from before. -/
theorem removing_a_node_undoes_all_that_was_done_to_it (g : Graph) (serial : Nat)
    (kind : Layer.Kind) (x : Node) (start : Graph) (turns : List Turn) (later : Graph)
    (serial' : Nat) (h : Reachable g serial)
    (hadd : g.apply serial (.addNode kind) = (.nodeAdded x, start))
    (hturns : History start (serial + 1) turns later serial')
    (habout : ∀ t ∈ turns, t.before.Concerns x.id t.command) :
    ∃ node, node.id = x.id ∧ node.Continues x ∧
      later.apply serial' (.removeNode x.id) = (.nodeRemoved node,
        { g with revision := g.revision + turns.countP Turn.tookEffect + 2 }) := by
  have hsound := sound_of_reachable h
  have hreach : Reachable start (serial + 1) := by
    have hnext := h.command (.addNode kind)
    rwa [hadd] at hnext
  have hnew := hsound.next_notMem kind
  rw [roster_ids] at hnew
  obtain ⟨hnode, rfl⟩ := Prod.mk.inj hadd
  obtain rfl := Outcome.nodeAdded.inj hnode
  have hgrown := GrownAt.history hturns (hsound.grownAt_withNode kind) hnew habout
  obtain ⟨node, hmem, hid, hremove⟩ :=
    hgrown.removeNode (sound_of_reachable (hturns.reachable hreach))
  have hcontinues := hturns.continues hreach _ (List.mem_append_right _ List.mem_cons_self) node
    hmem hid
  have hrevision : later.revision = g.revision + 1 + turns.countP Turn.tookEffect :=
    hturns.revision_eq
  refine ⟨node, hid, hcontinues, hremove.trans ?_⟩
  rw [hrevision, Nat.add_right_comm _ 1]

/-- A layer is connected both ways with an old one and with itself, gets a width with which the last
would be refused, is connected with a node that is not there and is moved. -/
def connectedAndWidened : List Command :=
  [.connect ⟨"linear_3"⟩ ⟨"linear_1"⟩, .connect ⟨"relu_2"⟩ ⟨"linear_3"⟩,
    .connect ⟨"linear_3"⟩ ⟨"linear_3"⟩, .patchText ⟨"linear_3"⟩ "outFeatures" " 32 ",
    .disconnect ⟨"linear_3->linear_3"⟩, .connect ⟨"linear_3"⟩ ⟨"linear_3"⟩,
    .connect ⟨"linear_3"⟩ ⟨"nowhere"⟩, .moveNode ⟨"linear_3"⟩ ⟨.zero .single false, .nan⟩]

theorem a_layer_connected_and_widened_leaves_no_trace :
    let added := loopedChain.1.apply loopedChain.2 (.addNode .linear)
    let turns := play added.2 (loopedChain.2 + 1) connectedAndWidened
    let later := run added.2 (loopedChain.2 + 1) connectedAndWidened
    Reachable loopedChain.1 loopedChain.2 ∧
      (∀ t ∈ turns, t.before.Concerns ⟨"linear_3"⟩ t.command) ∧
      later.1.edges = loopedChain.1.edges ++ [Edge.between ⟨"linear_3"⟩ ⟨"linear_1"⟩,
        Edge.between ⟨"relu_2"⟩ ⟨"linear_3"⟩] ∧
      ∃ node, later.1.apply later.2 (.removeNode ⟨"linear_3"⟩) =
        (.nodeRemoved node, { loopedChain.1 with revision := 12 }) := by
  intro added turns later
  have h : Reachable loopedChain.1 loopedChain.2 := (Reachable.empty 0).run _
  have habout : ∀ t ∈ turns, t.before.Concerns ⟨"linear_3"⟩ t.command := by decide +kernel
  have hturns : History added.2 (loopedChain.2 + 1) turns later.1 later.2 :=
    History.nil.play connectedAndWidened
  obtain ⟨node, _, _, hremove⟩ := removing_a_node_undoes_all_that_was_done_to_it loopedChain.1
    loopedChain.2 .linear _ added.2 turns later.1 later.2 h rfl hturns habout
  have hcount : turns.countP Turn.tookEffect = 6 := by decide +kernel
  rw [hcount] at hremove
  exact ⟨h, habout, by decide +kernel, node, hremove⟩

end NetEditor.Graph
