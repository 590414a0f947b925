-- The law of hints. A new parameter value can only change the verdicts of the edges at its own
-- node, and no successor whose connection breaks goes without a hint.
import NetEditor.Proofs.Graph.Neighbours

namespace NetEditor.Graph

variable {g : Graph} {serial : Nat}

/-! ## Hints -/

/-- The two nodes of the edge may be connected as they are now. -/
def allows (g : Graph) (edge : Edge) : Bool :=
  canConnect (g.node? edge.source) (g.node? edge.target)

theorem allows_eq_isNone (edge : Edge) : g.allows edge = (g.verdict? edge).isNone := rfl

def Hint.Tells (hint : Hint) (g : Graph) (edge : Edge) : Prop :=
  ∃ s t, g.node? edge.source = some s ∧ g.node? edge.target = some t ∧
    hint = ⟨edge.target, t.kind, s.outputDim, t.inputDim, g.allows edge⟩

/-- The hints for a node are one for each edge that goes out of it, in the order of the edges. -/
theorem Sound.forall₂_hints (h : Sound g serial) {id : NodeId} {source : Node}
    (hs : g.node? id = some source) :
    List.Forall₂ (fun edge hint => Hint.Tells hint g edge)
      (g.edges.filter fun edge => edge.source = id) (g.hints id) := by
  unfold hints
  rw [hs, List.forall₂_map_right_iff]
  have hout : ∀ edge ∈ g.edges.filter fun edge => edge.source = id, edge.source = id := by
    intro edge he
    simpa using (List.mem_filter.mp he).2
  refine (List.forall₂_and_left _ _ |>.mpr ⟨hout, h.forall₂_successors id⟩).imp ?_
  rintro edge target ⟨rfl, ht⟩
  refine ⟨source, target, hs, ht, ?_⟩
  rw [allows_eq_isNone, verdict?_eq hs ht, node?_id ht]

/-! ## One change of one node -/

def withRecord (g : Graph) (id : NodeId) (record : Layer.Record) : Graph :=
  g.withChange id fun node => { node with record := record }

theorem node?_withRecord_self {id : NodeId} {record : Layer.Record} {node : Node}
    (h : g.node? id = some node) :
    (g.withRecord id record).node? id = some { node with record := record } :=
  find?_updateNode_self h rfl

theorem node?_withRecord_of_ne {id other : NodeId} {record : Layer.Record} (hne : other ≠ id) :
    (g.withRecord id record).node? other = g.node? other := by
  unfold node? withRecord withChange commit
  exact find?_updateNode_of_ne hne g.nodes fun _ => rfl

/-- A parameter that was set was set of a node that is there, and its hints are those after. -/
theorem ran_of_applied {c : Command} {id : NodeId} {name : String} {hints : List Hint}
    {next : Graph} (hc : c.parameter? = some (id, name))
    (h : Ran g serial c (.patched (.applied hints)) next) :
    ∃ node value record, g.node? id = some node ∧ node.record.set name value = .ok record ∧
      next = g.withRecord id record ∧ hints = next.hintsAfter node name := by
  cases h with
  | applied hset hn hr =>
    obtain ⟨rfl, rfl⟩ := Prod.mk.inj
      (Option.some.inj (hc.symm.trans (Command.parameter?_of_setting? hset)))
    exact ⟨_, _, _, hn, hr, rfl, rfl⟩

section

variable {id : NodeId} {name : String} {value : Double} {node : Node} {record : Layer.Record}
  {edge : Edge}

theorem allows_withRecord_of_not_touches (h : edge.touches id = false) :
    (g.withRecord id record).allows edge = g.allows edge := by
  simp only [Edge.touches, Bool.or_eq_false_iff, decide_eq_false_iff_not] at h
  unfold allows
  rw [node?_withRecord_of_ne h.1, node?_withRecord_of_ne h.2]

/-- A parameter that is not the output dimension has no influence on the edges to other nodes. -/
theorem allows_withRecord_of_outputKey_ne (hn : g.node? id = some node)
    (hr : node.record.set name value = .ok record) (hkey : node.kind.outputKey ≠ some name)
    (hsource : edge.source = id) (htarget : edge.target ≠ id) :
    (g.withRecord id record).allows edge = g.allows edge := by
  unfold allows
  rw [hsource, node?_withRecord_self hn, node?_withRecord_of_ne htarget, hn]
  cases g.node? edge.target with
  | none => rfl
  | some target =>
    have hkind : ({ node with record := record } : Node).kind = node.kind :=
      Layer.Record.kind_set hr
    have hout : ({ node with record := record } : Node).outputDim = node.outputDim := by
      apply Node.outputDim_eq hkind
      intro key hk
      refine Layer.Record.get?_set_of_ne hr fun heq => hkey ?_
      rw [← hkind, ← heq]
      exact hk
    exact congrArg Option.isNone (Node.refusal?_eq hkind rfl hout rfl)

end

/-! ## The law -/

/-- What the hints promise that come with a parameter of a node, where setting it made one graph of
another. -/
structure HintsComplete (g next : Graph) (id : NodeId) (name : String) (hints : List Hint) :
    Prop where
  changes_touch : ∀ edge ∈ g.edges, next.allows edge ≠ g.allows edge → edge.touches id = true
  /-- A connection to another node that is judged differently has its hint. -/
  changes_told : ∀ edge ∈ g.edges, edge.source = id → edge.target ≠ id →
    next.allows edge ≠ g.allows edge → ∃ hint ∈ hints, hint.Tells next edge
  /-- A new output dimension comes with one hint for each edge that goes out of the node, in the
  order of the edges, and any other parameter with none. -/
  one_each : ∃ node, g.node? id = some node ∧
    (node.kind.outputKey = some name →
      List.Forall₂ (fun edge hint => Hint.Tells hint next edge)
        (g.edges.filter fun edge => edge.source = id) hints) ∧
    (node.kind.outputKey ≠ some name → hints = [])
  others_kept : ∀ other, other ≠ id → next.node? other = g.node? other
  ids_kept : next.nodes.map Node.id = g.nodes.map Node.id
  edges_kept : next.edges = g.edges

/-- Whenever a number or a typed text sets a parameter, its hints tell of every successor whose
connection is judged differently from then on, and nothing else in the graph changes. -/
theorem hints_miss_no_broken_successor (g : Graph) (serial : Nat) (c : Command) (id : NodeId)
    (name : String) (hints : List Hint) (h : Reachable g serial)
    (hc : c.parameter? = some (id, name))
    (hout : (g.apply serial c).1 = .patched (.applied hints)) :
    HintsComplete g (g.apply serial c).2 id name hints := by
  have hran := ran_apply g serial c
  have hsound := sound_of_reachable (h.command c)
  rw [hout] at hran
  generalize (g.apply serial c).2 = next at hran hsound ⊢
  obtain ⟨node, value, record, hn, hr, rfl, rfl⟩ := ran_of_applied hc hran
  have hnext : (g.withRecord id record).node? id = some { node with record := record } :=
    node?_withRecord_self hn
  have hid : node.id = id := node?_id hn
  have hone : node.kind.outputKey = some name →
      List.Forall₂ (fun edge hint => Hint.Tells hint (g.withRecord id record) edge)
        (g.edges.filter fun edge => edge.source = id)
        ((g.withRecord id record).hintsAfter node name) := by
    intro hkey
    rw [hintsAfter, if_pos hkey, hid]
    exact hsound.forall₂_hints hnext
  refine ⟨?_, ?_, ⟨node, hn, hone, fun hkey => if_neg hkey⟩, ?_, ?_, rfl⟩
  · intro edge _ hchange
    by_contra htouch
    exact hchange (allows_withRecord_of_not_touches (by simpa using htouch))
  · intro edge he hsource htarget hchange
    by_cases hkey : node.kind.outputKey = some name
    · have hmem : edge ∈ g.edges.filter fun edge => edge.source = id :=
        List.mem_filter.mpr ⟨he, by simpa using hsource⟩
      exact exists_of_forall₂ (hone hkey) hmem
    · exact absurd (allows_withRecord_of_outputKey_ne hn hr hkey hsource htarget) hchange
  · exact fun other hne => node?_withRecord_of_ne hne
  · rw [← roster_ids, ← roster_ids]
    exact congrArg _ (roster_withChange hn rfl (Layer.Record.kind_set hr))

/-- A linear layer that goes into a second one, into an activation and into itself. -/
def fannedOut : Graph × Nat :=
  run .empty 0 [.addNode .linear, .addNode .linear, .addNode .relu,
    .connect ⟨"linear_1"⟩ ⟨"linear_2"⟩, .connect ⟨"linear_1"⟩ ⟨"relu_3"⟩,
    .connect ⟨"linear_1"⟩ ⟨"linear_1"⟩]

theorem a_widened_layer_hints_at_all_three :
    let c := Command.patchText ⟨"linear_1"⟩ "outFeatures" " 32 "
    let hints : List Hint :=
      [⟨⟨"linear_2"⟩, .linear, some 32, some 16, false⟩, ⟨⟨"relu_3"⟩, .relu, some 32, none, true⟩,
        ⟨⟨"linear_1"⟩, .linear, some 32, some 16, false⟩]
    Reachable fannedOut.1 fannedOut.2 ∧
      (fannedOut.1.apply fannedOut.2 c).1 = .patched (.applied hints) ∧
      HintsComplete fannedOut.1 (fannedOut.1.apply fannedOut.2 c).2 ⟨"linear_1"⟩ "outFeatures"
        hints := by
  intro c hints
  have h : Reachable fannedOut.1 fannedOut.2 := (Reachable.empty 0).run _
  have hout : (fannedOut.1.apply fannedOut.2 c).1 = .patched (.applied hints) := by
    decide +kernel
  exact ⟨h, hout, hints_miss_no_broken_successor _ _ c _ _ hints h rfl hout⟩

end NetEditor.Graph
