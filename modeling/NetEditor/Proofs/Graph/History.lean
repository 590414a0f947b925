-- Turns: commands as they were run, each with the graph before and the graph after it. A history
-- is the list of all turns from one graph to another, so that laws can speak of what was done to a
-- node or to an edge before.
import NetEditor.Proofs.Graph.Reachable
import NetEditor.Proofs.Layer.Legality

namespace NetEditor

/-- The node is an earlier one as it became: of its kind, and with none of its parameters
emptied. -/
structure Node.Continues (node old : Node) : Prop where
  kind : node.kind = old.kind
  params : ∀ name, old.param? name ≠ none → node.param? name ≠ none

theorem Node.Continues.refl (node : Node) : node.Continues node := ⟨rfl, fun _ h => h⟩

theorem Node.Continues.trans {a b c : Node} (h : a.Continues b) (h' : b.Continues c) :
    a.Continues c :=
  ⟨h.kind.trans h'.kind, fun name hname => h.params name (h'.params name hname)⟩

namespace Graph

/-! ## Turns -/

structure Turn where
  before : Graph
  command : Command
  outcome : Outcome
  after : Graph

/-- The turn in which a command is run on a graph. -/
def turn (g : Graph) (serial : Nat) (c : Command) : Turn :=
  ⟨g, c, (g.apply serial c).1, (g.apply serial c).2⟩

namespace Turn

/-- The turn sets this parameter of this node. -/
def Sets (t : Turn) (id : NodeId) (name : String) : Prop :=
  t.command.parameter? = some (id, name) ∧ ∃ hints, t.outcome = .patched (.applied hints)

def Creates (t : Turn) (edge : Edge) : Prop := edge ∉ t.before.edges ∧ edge ∈ t.after.edges

variable {t : Turn} {serial : Nat} {id : NodeId} {name : String}

/-- A turn sets one parameter at most. -/
theorem Sets.unique {id' : NodeId} {name' : String} (h : t.Sets id name) (h' : t.Sets id' name') :
    id = id' ∧ name = name' :=
  Prod.mk.inj (Option.some.inj (h.1.symm.trans h'.1))

theorem not_sets (h : ∀ hints, t.outcome ≠ .patched (.applied hints)) : ¬ t.Sets id name :=
  fun ⟨_, hints, hout⟩ => h hints hout

/-- Where a node that a turn leaves comes from: it is new, or as it was but for its place, or one
of its parameters was set. -/
inductive Origin (t : Turn) (serial : Nat) (node : Node) : Prop
  | made (kind : Layer.Kind) (hc : t.command = .addNode kind)
      (hn : node = Node.initial (NodeId.numbered kind (serial + 1)) kind)
  | kept (old : Node) (ho : old ∈ t.before.nodes) (hid : node.id = old.id)
      (hr : node.record = old.record) (hs : ∀ name, ¬ t.Sets node.id name)
  | set (old : Node) (name : String) (value : Double) (ho : old ∈ t.before.nodes)
      (hid : node.id = old.id) (hs : t.Sets node.id name)
      (hset : old.record.set name value = .ok node.record)

end Turn

variable {g : Graph} {serial : Nat}

theorem Turn.origin {t : Turn} (hr : Ran t.before serial t.command t.outcome t.after)
    (hsound : Sound t.before serial) {node : Node} (hm : node ∈ t.after.nodes) :
    t.Origin serial node := by
  have hids := hsound.ids_nodup
  rw [roster_ids] at hids
  obtain ⟨g, c, outcome, next⟩ := t
  simp only at hr hm hids
  cases hr with
  | added kind =>
    rcases List.mem_append.mp hm with hm | hm
    · exact .kept node hm rfl rfl fun _ => Turn.not_sets (by simp)
    · exact .made kind rfl (List.mem_singleton.mp hm)
  | removed hn =>
    exact .kept node (List.mem_of_mem_eraseP hm) rfl rfl fun _ => Turn.not_sets (by simp)
  | moved position hn =>
    rcases mem_updateNode hids hm with ⟨ho, _⟩ | ⟨old, ho, _, rfl⟩
    · exact .kept node ho rfl rfl fun _ => Turn.not_sets (by simp)
    · exact .kept old ho rfl rfl fun _ => Turn.not_sets (by simp)
  | @applied _ id name value found record hc hn hset =>
    have hparam := Command.parameter?_of_setting? hc
    rcases mem_updateNode hids hm with ⟨ho, hne⟩ | ⟨old, ho, hid, rfl⟩
    · refine .kept node ho rfl rfl fun other hs => hne ?_
      exact (Prod.mk.inj (Option.some.inj (hs.1.symm.trans hparam))).1
    · have hold : old = found := Option.some.inj ((hsound.node?_of_mem ho).symm.trans (hid ▸ hn))
      subst hold
      exact .set old name value ho rfl ⟨by rw [hparam, ← hid], _, rfl⟩ hset
  | _ => exact .kept node hm rfl rfl fun _ => Turn.not_sets (by simp)

namespace Turn

variable {t : Turn} {node : Node}

/-- A node that is not new was there before, and the parameters that the turn does not set are as
they were. -/
theorem Origin.exists_old (h : t.Origin serial node)
    (hnew : ∀ kind, node.id ≠ NodeId.numbered kind (serial + 1)) :
    ∃ old ∈ t.before.nodes, old.id = node.id ∧ node.Continues old ∧
      ∀ name, ¬ t.Sets node.id name → node.param? name = old.param? name := by
  cases h with
  | made kind _ hn =>
    subst hn
    exact absurd rfl (hnew kind)
  | kept old ho hid hr _ =>
    refine ⟨old, ho, hid.symm, ⟨?_, ?_⟩, ?_⟩
    · rw [Node.kind, hr, ← Node.kind]
    · intro name hsome
      rwa [Node.param?, hr]
    · intro name _
      rw [Node.param?, hr, ← Node.param?]
  | set old name value ho hid hs hset =>
    refine ⟨old, ho, hid.symm, ⟨Layer.Record.kind_set hset,
      fun _ => Layer.Record.get?_set_ne_none hset⟩, fun other hother => ?_⟩
    have hne : other ≠ name := fun heq => hother (heq ▸ hs)
    exact Layer.Record.get?_set_of_ne hset hne

theorem Sets.exists_node {id : NodeId} {name : String} (h : t.Sets id name)
    (hr : Ran t.before serial t.command t.outcome t.after) :
    ∃ node, t.before.node? id = some node := by
  obtain ⟨g, c, outcome, next⟩ := t
  obtain ⟨hparam, hints, hout⟩ := h
  simp only at hr hparam hout ⊢
  subst hout
  cases hr with
  | applied hc hn _ =>
    obtain ⟨rfl, _⟩ := Prod.mk.inj
      (Option.some.inj (hparam.symm.trans (Command.parameter?_of_setting? hc)))
    exact ⟨_, hn⟩

/-- An edge that was not there before was made by a connection that was allowed. -/
theorem mem_edges (hr : Ran t.before serial t.command t.outcome t.after) {edge : Edge}
    (he : edge ∈ t.after.edges) : edge ∈ t.before.edges ∨
      t.command = .connect edge.source edge.target ∧ t.after.nodes = t.before.nodes ∧
        ∃ s u, t.before.node? edge.source = some s ∧ t.before.node? edge.target = some u ∧
          s.refusal? u = none := by
  obtain ⟨g, c, outcome, next⟩ := t
  simp only at hr he ⊢
  cases hr with
  | removed => exact Or.inl (List.mem_filter.mp he).1
  | disconnected => exact Or.inl (List.mem_of_mem_eraseP he)
  | connected hs ht hnew hallowed =>
    rcases List.mem_append.mp he with he | he
    · exact Or.inl he
    · obtain rfl := List.mem_singleton.mp he
      exact Or.inr ⟨rfl, rfl, _, _, hs, ht, hallowed⟩
  | _ => exact Or.inl he

end Turn

/-! ## Histories -/

/-- The turns that lead from one graph to another, in order, with the number of nodes that were
ever added anywhere at the two ends. Between two turns nodes may be added to other graphs. -/
inductive History (start : Graph) (first : Nat) : List Turn → Graph → Nat → Prop
  | nil : History start first [] start first
  | elsewhere {turns : List Turn} {g : Graph} {serial later : Nat} :
      History start first turns g serial → serial ≤ later → History start first turns g later
  | snoc {turns : List Turn} {g : Graph} {serial : Nat} (c : Command) :
      History start first turns g serial →
      History start first (turns ++ [g.turn serial c]) (g.turn serial c).after
        (c.serialAfter serial)

theorem ran_turn (g : Graph) (serial : Nat) (c : Command) :
    Ran (g.turn serial c).before serial (g.turn serial c).command (g.turn serial c).outcome
      (g.turn serial c).after := ran_apply g serial c

namespace History

variable {start : Graph} {first : Nat} {turns : List Turn}

theorem reachable (h : History start first turns g serial) (hs : Reachable start first) :
    Reachable g serial := by
  induction h with
  | nil => exact hs
  | elsewhere _ hl ih => exact .elsewhere ih hl
  | snoc c _ ih => exact .command c ih

theorem le (h : History start first turns g serial) : first ≤ serial := by
  induction h with
  | nil => exact Nat.le_refl _
  | elsewhere _ hl ih => exact Nat.le_trans ih hl
  | snoc c _ ih => exact Nat.le_trans ih (c.le_serialAfter _)

/-- The graphs that commands make of an empty graph are those with a history. -/
theorem exists_of_reachable (h : Reachable g serial) :
    ∃ first turns, History .empty first turns g serial := by
  induction h with
  | empty serial => exact ⟨serial, [], .nil⟩
  | elsewhere _ hl ih =>
    obtain ⟨first, turns, h⟩ := ih
    exact ⟨first, turns, h.elsewhere hl⟩
  | command c _ ih =>
    obtain ⟨first, turns, h⟩ := ih
    exact ⟨first, _, h.snoc c⟩

theorem sound (h : History .empty first turns g serial) : Sound g serial :=
  sound_of_reachable (h.reachable (.empty first))

/-- A node that was there at the start and still is continues what it was. -/
theorem continues (h : History start first turns g serial) (hs : Reachable start first) :
    ∀ old ∈ start.nodes, ∀ node ∈ g.nodes, node.id = old.id → node.Continues old := by
  induction h with
  | nil =>
    intro old ho node hn hid
    have hsound := sound_of_reachable hs
    have hsame : node = old := Option.some.inj
      ((hsound.node?_of_mem hn).symm.trans (hid ▸ hsound.node?_of_mem ho))
    exact hsame ▸ .refl node
  | elsewhere _ _ ih => exact ih
  | @snoc turns g serial c hg ih =>
    intro old ho node hn hid
    have hsound := sound_of_reachable (hg.reachable hs)
    have hnew : ∀ kind, node.id ≠ NodeId.numbered kind (serial + 1) := by
      intro kind heq
      apply ((sound_of_reachable hs).later hg.le).next_notMem kind
      rw [← heq, hid, roster_ids]
      exact List.mem_map_of_mem ho
    obtain ⟨between, hb, hbid, hcont, _⟩ :=
      (Turn.origin (ran_turn g serial c) hsound hn).exists_old hnew
    exact hcont.trans (ih old ho between hb (hbid.trans hid))

/-- No turn of the past can have set anything of the next new node. -/
theorem not_sets_next (h : History .empty first turns g serial) (kind : Layer.Kind) (name : String)
    {later : Nat} (hl : serial ≤ later) :
    ∀ t ∈ turns, ¬ t.Sets (NodeId.numbered kind (later + 1)) name := by
  induction h generalizing later with
  | nil => simp
  | elsewhere _ hl' ih => exact ih (Nat.le_trans hl' hl)
  | @snoc turns g serial c hg ih =>
    have hle := Nat.le_trans (c.le_serialAfter serial) hl
    intro t ht hs
    rcases List.mem_append.mp ht with ht | ht
    · exact ih hle t ht hs
    · obtain rfl := List.mem_singleton.mp ht
      obtain ⟨node, hn⟩ := hs.exists_node (ran_turn g serial c)
      have hmem := List.mem_map_of_mem (f := Prod.fst) (mem_roster_of_node? hn)
      exact (hg.sound.later hle).next_notMem kind hmem

end History

/-- The turns of a list of commands. -/
def play (g : Graph) (serial : Nat) : List Command → List Turn
  | [] => []
  | c :: rest => g.turn serial c :: play (g.turn serial c).after (c.serialAfter serial) rest

theorem History.play {start : Graph} {first : Nat} {turns : List Turn}
    (h : History start first turns g serial) (cs : List Command) :
    History start first (turns ++ g.play serial cs) (g.run serial cs).1 (g.run serial cs).2 := by
  induction cs generalizing turns g serial with
  | nil =>
    rw [Graph.play, List.append_nil]
    exact h
  | cons c rest ih =>
    have hrest := ih (h.snoc c)
    rw [List.append_assoc, List.singleton_append] at hrest
    exact hrest

end Graph

end NetEditor
