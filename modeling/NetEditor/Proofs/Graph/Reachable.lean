-- The laws of the graphs that commands make of an empty graph. The invariant looks only at the
-- names and kinds of the nodes and at the edges, so patches and moves keep it at once.
import NetEditor.Proofs.Graph.Effect
import NetEditor.Proofs.Graph.Nodes
import NetEditor.Proofs.Names

namespace NetEditor.Graph

/-- The graphs that commands make of an empty graph, each with the number of nodes that were
ever added anywhere by then. Between two commands nodes may be added to other graphs. -/
inductive Reachable : Graph → Nat → Prop
  | empty (serial : Nat) : Reachable .empty serial
  | elsewhere {g : Graph} {serial later : Nat} :
      Reachable g serial → serial ≤ later → Reachable g later
  | command {g : Graph} {serial : Nat} (c : Command) :
      Reachable g serial → Reachable (g.apply serial c).2 (c.serialAfter serial)

/-- A graph and the count of added nodes after a list of commands. -/
def run (g : Graph) (serial : Nat) (cs : List Command) : Graph × Nat :=
  cs.foldl (fun now c => ((now.1.apply now.2 c).2, c.serialAfter now.2)) (g, serial)

theorem Reachable.run {g : Graph} {serial : Nat} (h : Reachable g serial) (cs : List Command) :
    Reachable (g.run serial cs).1 (g.run serial cs).2 := by
  induction cs generalizing g serial with
  | nil => exact h
  | cons c rest ih => exact ih (.command c h)

/-! ## Names and kinds -/

/-- The name and the kind of each node, in order. -/
def roster (g : Graph) : List (NodeId × Layer.Kind) := g.nodes.map fun node => (node.id, node.kind)

theorem roster_ids (g : Graph) : g.roster.map Prod.fst = g.nodes.map Node.id := by
  simp [roster]

theorem mem_roster_of_node? {g : Graph} {id : NodeId} {node : Node} (h : g.node? id = some node) :
    (id, node.kind) ∈ g.roster := by
  obtain rfl := node?_id h
  exact List.mem_map_of_mem (mem_of_node? h)

theorem roster_withNode (g : Graph) (serial : Nat) (kind : Layer.Kind) :
    (g.withNode serial kind).roster =
      g.roster ++ [(NodeId.numbered kind (serial + 1), kind)] := by
  simp only [roster, withNode, commit, List.map_append, List.map_cons, List.map_nil]
  rfl

theorem roster_withoutNode (g : Graph) (id : NodeId) :
    (g.withoutNode id).roster = g.roster.eraseP fun entry => entry.1 = id := by
  simp only [roster, withoutNode, commit, List.eraseP_map]
  rfl

/-- A change of the node that is found changes no name and no kind if it keeps those of this
node. -/
theorem roster_withChange {g : Graph} {id : NodeId} {change : Node → Node} {node : Node}
    (h : g.node? id = some node) (hid : (change node).id = node.id)
    (hkind : (change node).kind = node.kind) : (g.withChange id change).roster = g.roster := by
  refine map_updateNode (fun node => (node.id, node.kind)) fun found hfound => ?_
  obtain rfl := Option.some.inj (h.symm.trans hfound)
  rw [hid, hkind]

/-! ## The invariant -/

/-- Every name was given out by the count, to a node of its kind, and to one node only. Edges run
between nodes of the graph and are named for them, at most one a pair and none into an
embedding. -/
structure Sound (g : Graph) (serial : Nat) : Prop where
  numbered : ∀ entry ∈ g.roster, ∃ n ≤ serial, entry.1 = NodeId.numbered entry.2 n
  ids_nodup : (g.roster.map Prod.fst).Nodup
  ends_listed : ∀ edge ∈ g.edges,
    edge.source ∈ g.roster.map Prod.fst ∧ edge.target ∈ g.roster.map Prod.fst
  edge_ids : ∀ edge ∈ g.edges, edge.id = EdgeId.between edge.source edge.target
  pairs_nodup : (g.edges.map fun edge => (edge.source, edge.target)).Nodup
  no_embedding : ∀ edge ∈ g.edges, (edge.target, Layer.Kind.embedding) ∉ g.roster

theorem sound_empty (serial : Nat) : Sound .empty serial where
  numbered := by simp [roster, empty]
  ids_nodup := by simp [roster, empty]
  ends_listed := by simp [empty]
  edge_ids := by simp [empty]
  pairs_nodup := by simp [empty]
  no_embedding := by simp [empty]

variable {g : Graph} {serial : Nat}

theorem Sound.later {later : Nat} (h : Sound g serial) (hl : serial ≤ later) : Sound g later :=
  { h with
    numbered := fun entry he => by
      obtain ⟨n, hn, heq⟩ := h.numbered entry he
      exact ⟨n, Nat.le_trans hn hl, heq⟩ }

/-- Names and kinds and edges are all that the invariant looks at. -/
theorem Sound.of_roster_eq {next : Graph} (h : Sound g serial) (hr : next.roster = g.roster)
    (he : next.edges = g.edges) : Sound next serial := by
  obtain ⟨h1, h2, h3, h4, h5, h6⟩ := h
  refine ⟨hr ▸ h1, hr ▸ h2, ?_, he ▸ h4, he ▸ h5, ?_⟩
  · rw [hr, he]
    exact h3
  · rw [hr, he]
    exact h6

theorem Sound.kind_unique (h : Sound g serial) {id : NodeId} {a b : Layer.Kind}
    (ha : (id, a) ∈ g.roster) (hb : (id, b) ∈ g.roster) : a = b := by
  have heq := List.inj_on_of_nodup_map h.ids_nodup ha hb rfl
  exact (Prod.mk.inj heq).2

theorem Sound.node?_of_mem (h : Sound g serial) {node : Node} (hm : node ∈ g.nodes) :
    g.node? node.id = some node := by
  have hids := h.ids_nodup
  rw [roster_ids] at hids
  exact find?_of_mem_of_nodup hids hm

theorem exists_node?_of_mem_ids {id : NodeId} (hm : id ∈ g.roster.map Prod.fst) :
    ∃ node, g.node? id = some node := by
  rw [roster_ids] at hm
  obtain ⟨node, hn, rfl⟩ := List.mem_map.mp hm
  have hsome : (g.node? node.id).isSome = true := List.find?_isSome.mpr ⟨node, hn, by simp⟩
  exact Option.isSome_iff_exists.mp hsome

theorem Sound.next_notMem (h : Sound g serial) (kind : Layer.Kind) :
    NodeId.numbered kind (serial + 1) ∉ g.roster.map Prod.fst := by
  intro hm
  obtain ⟨entry, he, heq⟩ := List.mem_map.mp hm
  obtain ⟨n, hn, hnum⟩ := h.numbered entry he
  rw [hnum, NodeId.numbered_inj] at heq
  omega

theorem Sound.withNode (h : Sound g serial) (kind : Layer.Kind) :
    Sound (g.withNode serial kind) (serial + 1) := by
  have hnew := h.next_notMem kind
  refine ⟨?_, ?_, ?_, h.edge_ids, h.pairs_nodup, ?_⟩
  · rw [roster_withNode]
    intro entry he
    rcases List.mem_append.mp he with he | he
    · exact (h.later (Nat.le_succ serial)).numbered entry he
    · obtain rfl := List.mem_singleton.mp he
      exact ⟨serial + 1, Nat.le_refl _, rfl⟩
  · rw [roster_withNode, List.map_append, List.map_singleton, List.nodup_append]
    refine ⟨h.ids_nodup, List.nodup_singleton _, ?_⟩
    intro a ha b hb hab
    rw [List.mem_singleton] at hb
    subst hb hab
    exact hnew ha
  · rw [roster_withNode, List.map_append]
    intro edge he
    obtain ⟨hs, ht⟩ := h.ends_listed edge he
    exact ⟨List.mem_append_left _ hs, List.mem_append_left _ ht⟩
  · rw [roster_withNode]
    intro edge he hm
    rcases List.mem_append.mp hm with hm | hm
    · exact h.no_embedding edge he hm
    · have hid := (Prod.mk.inj (List.mem_singleton.mp hm)).1
      exact hnew (hid ▸ (h.ends_listed edge he).2)

/-- The node goes with all its edges, so the ends of the other edges stay. -/
theorem Sound.withoutNode (h : Sound g serial) (id : NodeId) :
    Sound (g.withoutNode id) serial := by
  have hsub := List.eraseP_subset (p := fun entry : NodeId × Layer.Kind => entry.1 = id)
    (l := g.roster)
  have hkeep : ∀ other ∈ g.roster.map Prod.fst, other ≠ id →
      other ∈ (g.roster.eraseP fun entry => entry.1 = id).map Prod.fst := by
    intro other ho hne
    obtain ⟨entry, he, rfl⟩ := List.mem_map.mp ho
    exact List.mem_map_of_mem ((List.mem_eraseP_of_neg (by simpa using hne)).mpr he)
  refine ⟨?_, ?_, ?_, ?_, h.pairs_nodup.sublist (List.filter_sublist.map _), ?_⟩
  · rw [roster_withoutNode]
    exact fun entry he => h.numbered entry (hsub he)
  · rw [roster_withoutNode]
    exact h.ids_nodup.sublist (List.eraseP_sublist.map _)
  · rw [roster_withoutNode]
    intro edge he
    obtain ⟨hmem, htouch⟩ := List.mem_filter.mp he
    simp only [Edge.touches, Bool.not_eq_eq_eq_not, Bool.not_true, Bool.or_eq_false_iff,
      decide_eq_false_iff_not] at htouch
    obtain ⟨hs, ht⟩ := h.ends_listed edge hmem
    exact ⟨hkeep _ hs htouch.1, hkeep _ ht htouch.2⟩
  · exact fun edge he => h.edge_ids edge (List.mem_filter.mp he).1
  · rw [roster_withoutNode]
    exact fun edge he hm => h.no_embedding edge (List.mem_filter.mp he).1 (hsub hm)

/-- A connection is judged only once, but kinds never change, so no edge into an embedding comes
about later. -/
theorem Sound.withEdge (h : Sound g serial) {source target : NodeId} {s t : Node}
    (hs : g.node? source = some s) (ht : g.node? target = some t)
    (hnew : g.edgeBetween? source target = none) (hr : s.refusal? t = none) :
    Sound (g.withEdge source target) serial := by
  refine ⟨h.numbered, h.ids_nodup, ?_, ?_, ?_, ?_⟩
  · intro edge he
    rcases List.mem_append.mp he with he | he
    · exact h.ends_listed edge he
    · obtain rfl := List.mem_singleton.mp he
      exact ⟨List.mem_map_of_mem (mem_roster_of_node? hs),
        List.mem_map_of_mem (mem_roster_of_node? ht)⟩
  · intro edge he
    rcases List.mem_append.mp he with he | he
    · exact h.edge_ids edge he
    · obtain rfl := List.mem_singleton.mp he
      rfl
  · simp only [Graph.withEdge, commit]
    rw [List.map_append, List.map_singleton, List.nodup_append]
    refine ⟨h.pairs_nodup, List.nodup_singleton _, ?_⟩
    intro a ha b hb hab
    rw [List.mem_singleton] at hb
    subst hb hab
    obtain ⟨edge, he, hpair⟩ := List.mem_map.mp ha
    obtain ⟨hsource, htarget⟩ := Prod.mk.inj hpair
    have hno := List.find?_eq_none.mp hnew edge he
    simp only [Bool.and_eq_true, decide_eq_true_eq] at hno
    exact hno ⟨hsource, htarget⟩
  · intro edge he hm
    rcases List.mem_append.mp he with he | he
    · exact h.no_embedding edge he hm
    · obtain rfl := List.mem_singleton.mp he
      have hkind := h.kind_unique hm (mem_roster_of_node? ht)
      simp [Node.refusal?, ← hkind] at hr

theorem Sound.withoutEdge (h : Sound g serial) (id : EdgeId) : Sound (g.withoutEdge id) serial := by
  have hsub := List.eraseP_subset (p := fun edge : Edge => edge.id = id) (l := g.edges)
  refine ⟨h.numbered, h.ids_nodup, ?_, ?_, ?_, ?_⟩
  · exact fun edge he => h.ends_listed edge (hsub he)
  · exact fun edge he => h.edge_ids edge (hsub he)
  · exact h.pairs_nodup.sublist (List.eraseP_sublist.map _)
  · exact fun edge he => h.no_embedding edge (hsub he)

/-- Every command keeps the invariant. -/
theorem Sound.command (h : Sound g serial) (c : Command) :
    Sound (g.apply serial c).2 (c.serialAfter serial) := by
  have hr := ran_apply g serial c
  generalize (g.apply serial c).1 = outcome, (g.apply serial c).2 = next at hr ⊢
  have hlater := c.le_serialAfter serial
  cases hr with
  | added kind => exact h.withNode kind
  | removed hn => exact h.withoutNode _
  | moved position hn => exact h.of_roster_eq (roster_withChange hn rfl rfl) rfl
  | @applied _ id _ _ node record hc hn hset =>
    obtain ⟨_, _, _, _, hkind, _⟩ := Layer.Record.set_ok hset
    have hsame : ({ node with record := record } : Node).kind = node.kind := hkind
    exact (h.of_roster_eq (roster_withChange hn rfl hsame) rfl).later hlater
  | connected hs ht hnew hr => exact h.withEdge hs ht hnew hr
  | disconnected he => exact h.withoutEdge _
  | _ => exact h.later hlater

theorem sound_of_reachable (h : Reachable g serial) : Sound g serial := by
  induction h with
  | empty serial => exact sound_empty serial
  | elsewhere _ hl ih => exact ih.later hl
  | command c _ ih => exact ih.command c

/-! ## The laws -/

/-- What a graph promises to those who read it. -/
structure WellFormed (g : Graph) : Prop where
  ids_distinct : (g.nodes.map Node.id).Nodup
  ends_exist : ∀ edge ∈ g.edges,
    edge.source ∈ g.nodes.map Node.id ∧ edge.target ∈ g.nodes.map Node.id
  one_edge_a_pair : (g.edges.map fun edge => (edge.source, edge.target)).Nodup
  edge_ids : ∀ edge ∈ g.edges, edge.id = EdgeId.between edge.source edge.target
  edge_ids_distinct : (g.edges.map Edge.id).Nodup
  no_edge_into_embedding : ∀ edge ∈ g.edges, ∀ node ∈ g.nodes, node.id = edge.target →
    node.kind ≠ .embedding
  named_for_kind : ∀ node ∈ g.nodes, (node.kind.name ++ "_").toList <+: node.id.text.toList

theorem Sound.isNumbered (h : Sound g serial) {id : NodeId} (hm : id ∈ g.roster.map Prod.fst) :
    id.IsNumbered := by
  obtain ⟨entry, he, rfl⟩ := List.mem_map.mp hm
  obtain ⟨n, _, heq⟩ := h.numbered entry he
  exact ⟨entry.2, n, heq⟩

/-- An edge has the name made of two names only if it runs between these two. -/
theorem Sound.edge_id_eq_between_iff (h : Sound g serial) {edge : Edge} (he : edge ∈ g.edges)
    {source target : NodeId} :
    edge.id = EdgeId.between source target ↔ edge.source = source ∧ edge.target = target := by
  obtain ⟨hs, ht⟩ := h.ends_listed edge he
  rw [h.edge_ids edge he, EdgeId.between_inj (h.isNumbered hs) (h.isNumbered ht)]

/-- The name of an edge tells its ends, and with them the edge. -/
theorem Sound.edge_id_injective (h : Sound g serial) {a b : Edge} (ha : a ∈ g.edges)
    (hb : b ∈ g.edges) (hid : a.id = b.id) : a = b := by
  rw [h.edge_ids b hb, h.edge_id_eq_between_iff ha] at hid
  exact List.inj_on_of_nodup_map h.pairs_nodup ha hb (Prod.ext hid.1 hid.2)

/-- After any commands, whatever they name, the names of nodes and of edges are distinct, every
edge has both its ends, no pair is connected twice, nothing goes into an embedding, and each
node is named for its kind. -/
theorem a_reachable_graph_is_well_formed (g : Graph) (serial : Nat) (h : Reachable g serial) :
    WellFormed g := by
  have hs := sound_of_reachable h
  refine ⟨?_, ?_, hs.pairs_nodup, hs.edge_ids, ?_, ?_, ?_⟩
  · exact roster_ids g ▸ hs.ids_nodup
  · exact roster_ids g ▸ hs.ends_listed
  · exact hs.pairs_nodup.of_map.map_on fun a ha b hb hid => hs.edge_id_injective ha hb hid
  · intro edge he node hn hid hkind
    apply hs.no_embedding edge he
    rw [← hid, ← hkind]
    exact List.mem_map_of_mem hn
  · intro node hn
    obtain ⟨n, _, hid⟩ := hs.numbered (node.id, node.kind) (List.mem_map_of_mem hn)
    simp only at hid
    rw [hid, NodeId.numbered_toList]
    simp

/-- A chain of two nodes whose second is also connected to itself. -/
def loopedChain : Graph × Nat :=
  run .empty 0 [.addNode .linear, .addNode .relu, .connect ⟨"linear_1"⟩ ⟨"relu_2"⟩,
    .connect ⟨"relu_2"⟩ ⟨"relu_2"⟩, .connect ⟨"relu_2"⟩ ⟨"relu_3"⟩]

theorem a_looped_chain_is_well_formed :
    Reachable loopedChain.1 loopedChain.2 ∧ WellFormed loopedChain.1 ∧
      loopedChain.1.edges =
        [Edge.between ⟨"linear_1"⟩ ⟨"relu_2"⟩, Edge.between ⟨"relu_2"⟩ ⟨"relu_2"⟩] := by
  have h : Reachable loopedChain.1 loopedChain.2 := (Reachable.empty 0).run _
  exact ⟨h, a_reachable_graph_is_well_formed _ _ h, by decide +kernel⟩

end NetEditor.Graph
