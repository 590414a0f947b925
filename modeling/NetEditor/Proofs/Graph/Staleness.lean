-- The law of stale edges. A connection is judged once, when it is made. Afterwards it can only be
-- wrong by its two dimensions, and only if one of them was set since.
import NetEditor.Proofs.Graph.Parameters
import NetEditor.Proofs.Verdicts

namespace NetEditor

/-! ## What a verdict looks at -/

theorem Node.Lawful.dim_known {node : Node} {turns : List Graph.Turn} (h : node.Lawful turns)
    {param : Layer.Param} (hp : param ∈ node.kind.schema)
    (hpositive : param.constraint = .positive) (hclosed : ¬ node.kind.LeavesOpen param.name) :
    ∃ n, node.record.dim (some param.name) = some n := by
  rcases h param hp with ⟨v, hv, _⟩ | ⟨_, hopen, _⟩
  · have hcounts : ∀ name ∈ some param.name, node.kind.Counts name :=
      fun name hname => ⟨param, hp, Option.some.inj hname, hpositive⟩
    have hread : (node.record.dim (some param.name)).map Layer.Value.count = some v := by
      rw [Layer.Record.map_count_dim hcounts]
      exact hv
    obtain ⟨n, hn, _⟩ := Option.map_eq_some_iff.mp hread
    exact ⟨n, hn⟩
  · exact absurd hopen hclosed

namespace Graph

/-- What is wrong with an edge as its two nodes are now. -/
def verdict? (g : Graph) (edge : Edge) : Option Refusal :=
  connectionRefusal? (g.node? edge.source) (g.node? edge.target)

variable {g : Graph} {serial first : Nat} {turns : List Turn} {t : Turn} {edge : Edge}

theorem verdict?_eq {s u : Node} (hs : g.node? edge.source = some s)
    (hu : g.node? edge.target = some u) : g.verdict? edge = s.refusal? u := by
  rw [verdict?, hs, hu]
  rfl

theorem Sound.exists_ends (h : Sound g serial) (he : edge ∈ g.edges) :
    ∃ s u, g.node? edge.source = some s ∧ g.node? edge.target = some u := by
  obtain ⟨hsource, htarget⟩ := h.ends_listed edge he
  obtain ⟨s, hs⟩ := exists_node?_of_mem_ids hsource
  obtain ⟨u, hu⟩ := exists_node?_of_mem_ids htarget
  exact ⟨s, u, hs, hu⟩

/-- The dimensions that the one forbidding rule about unknown dimensions asks for are known. -/
theorem dims_known {s u : Node} (hs : s.Lawful turns) (hu : u.Lawful turns)
    (hlinear : s.kind = .linear) (hconv : u.kind = .conv1d) :
    s.outputDim ≠ none ∧ u.inputDim ≠ none := by
  have hfeatures : Layer.Param.size "outFeatures" 16 ∈ s.kind.schema := by
    rw [hlinear]
    decide
  have hchannels : Layer.Param.size "inChannels" 1 ∈ u.kind.schema := by
    rw [hconv]
    decide
  obtain ⟨a, ha⟩ := hs.dim_known hfeatures rfl (by rw [hlinear]; decide)
  obtain ⟨b, hb⟩ := hu.dim_known hchannels rfl (by rw [hconv]; decide)
  refine ⟨?_, ?_⟩
  · rw [Node.outputDim, hlinear]
    exact Option.ne_none_iff_exists'.mpr ⟨a, ha⟩
  · rw [Node.inputDim, hconv]
    exact Option.ne_none_iff_exists'.mpr ⟨b, hb⟩

/-- All that can be wrong with an edge is that its dimensions, both known, differ. -/
theorem verdict?_cases (h : History .empty first turns g serial) (he : edge ∈ g.edges) {s u : Node}
    (hs : g.node? edge.source = some s) (hu : g.node? edge.target = some u) :
    g.verdict? edge = none ∨ ∃ a b, s.outputDim = some a ∧ u.inputDim = some b ∧ a ≠ b ∧
      g.verdict? edge = some (.dimensionMismatch a b) := by
  have hlawful := lawful_of_history h
  have hruled := Node.ruled_refusal? s u
  rw [verdict?_eq hs hu]
  generalize s.refusal? u = verdict at hruled ⊢
  cases hruled with
  | embedding hkind =>
    exact absurd (hkind ▸ mem_roster_of_node? hu) (h.sound.no_embedding edge he)
  | mismatch _ ha hb hne => exact Or.inr ⟨_, _, ha, hb, hne, rfl⟩
  | undetermined hlinear hconv hunknown =>
    obtain ⟨hout, hin⟩ :=
      dims_known (hlawful s (mem_of_node? hs)) (hlawful u (mem_of_node? hu)) hlinear hconv
    exact (hunknown.elim hout hin).elim
  | equal => exact Or.inl rfl
  | unknown => exact Or.inl rfl

/-! ## Verdicts over time -/

/-- None of the turns sets the dimension that goes into the edge or the one expected at its end. -/
def SparesEnds (turns : List Turn) (edge : Edge) (source target : Layer.Kind) : Prop :=
  ∀ t ∈ turns, (∀ key ∈ source.outputKey, ¬ t.Sets edge.source key) ∧
    ∀ key ∈ target.inputKey, ¬ t.Sets edge.target key

theorem Turn.node_before (hr : Ran t.before serial t.command t.outcome t.after)
    (hsound : Sound t.before serial) {id : NodeId} (hid : id ∈ t.before.roster.map Prod.fst)
    {node : Node} (hn : t.after.node? id = some node) :
    ∃ old, t.before.node? id = some old ∧ node.kind = old.kind ∧
      ∀ name, ¬ t.Sets id name → node.param? name = old.param? name := by
  obtain rfl := node?_id hn
  have hnew : ∀ kind, node.id ≠ NodeId.numbered kind (serial + 1) :=
    fun kind heq => hsound.next_notMem kind (heq ▸ hid)
  obtain ⟨old, ho, holdid, hcont, hparams⟩ :=
    (Turn.origin hr hsound (mem_of_node? hn)).exists_old hnew
  exact ⟨old, holdid ▸ hsound.node?_of_mem ho, hcont.kind, hparams⟩

/-- The ends of an edge that stays over a turn, before it. A turn that spares the two dimensions of
the edge leaves its verdict. -/
theorem Turn.ends_before (hr : Ran t.before serial t.command t.outcome t.after)
    (hsound : Sound t.before serial) (he : edge ∈ t.before.edges) {s u : Node}
    (hs : t.after.node? edge.source = some s) (hu : t.after.node? edge.target = some u) :
    ∃ s₀ u₀, t.before.node? edge.source = some s₀ ∧ t.before.node? edge.target = some u₀ ∧
      s.kind = s₀.kind ∧ u.kind = u₀.kind ∧
      (SparesEnds [t] edge s.kind u.kind → t.after.verdict? edge = t.before.verdict? edge) := by
  obtain ⟨hsource, htarget⟩ := hsound.ends_listed edge he
  obtain ⟨s₀, hs₀, hskind, hsparam⟩ := Turn.node_before hr hsound hsource hs
  obtain ⟨u₀, hu₀, hukind, huparam⟩ := Turn.node_before hr hsound htarget hu
  refine ⟨s₀, u₀, hs₀, hu₀, hskind, hukind, fun hspares => ?_⟩
  obtain ⟨hout, hin⟩ := hspares t List.mem_cons_self
  rw [verdict?_eq hs hu, verdict?_eq hs₀ hu₀]
  exact Node.refusal?_eq hskind hukind
    (Node.outputDim_eq hskind fun key hkey => hsparam key (hout key hkey))
    (Node.inputDim_eq hukind fun key hkey => huparam key (hin key hkey))

/-- Every edge has a turn that made it last, and is right as long as the turns after that one spare
its dimensions. The induction is on the last turn: it either makes the edge, after a verdict, or
finds it there and passes on the verdict from before. -/
theorem exists_creation (h : History .empty first turns g serial) :
    ∀ edge ∈ g.edges, ∃ before made after, turns = before ++ made :: after ∧
      made.command = .connect edge.source edge.target ∧ made.Creates edge ∧
      (∀ t ∈ after, ¬ t.Creates edge) ∧
      ∀ s u, g.node? edge.source = some s → g.node? edge.target = some u →
        SparesEnds after edge s.kind u.kind → g.verdict? edge = none := by
  induction h with
  | nil => simp [empty]
  | elsewhere _ _ ih => exact ih
  | @snoc turns g serial c hg ih =>
    intro edge he
    have hran := ran_turn g serial c
    by_cases hold : edge ∈ g.edges
    · obtain ⟨before, made, after, hturns, hcommand, hmade, hlast, hright⟩ := ih edge hold
      refine ⟨before, made, after ++ [g.turn serial c], by simp [hturns], hcommand, hmade, ?_, ?_⟩
      · rw [List.forall_mem_append, List.forall_mem_singleton]
        exact ⟨hlast, fun hcreates => hcreates.1 hold⟩
      · intro s u hs hu hspares
        obtain ⟨s₀, u₀, hs₀, hu₀, hskind, hukind, hsame⟩ :=
          Turn.ends_before hran hg.sound hold hs hu
        rw [hsame fun t ht => hspares t (List.mem_append_right after ht)]
        apply hright s₀ u₀ hs₀ hu₀
        rw [← hskind, ← hukind]
        exact fun t ht => hspares t (List.mem_append_left _ ht)
    · rcases Turn.mem_edges hran he with hmem | ⟨hcommand, hnodes, s, u, hs, hu, hallowed⟩
      · exact absurd hmem hold
      · refine ⟨turns, g.turn serial c, [], rfl, hcommand, ⟨hold, he⟩, by simp, ?_⟩
        intro _ _ _ _ _
        have hsame : ∀ id, (g.turn serial c).after.node? id = (g.turn serial c).before.node? id :=
          fun id => by rw [node?, hnodes, ← node?]
        rw [verdict?_eq ((hsame _).trans hs) ((hsame _).trans hu), hallowed]

/-! ## The law -/

/-- An edge has both its nodes, and is right, or wrong by its two known dimensions and by nothing
else. It is right for as long as, since it was made last, neither the output dimension of its
source nor the input dimension of its target was set. -/
theorem an_edge_goes_stale_only_by_its_dimensions (first : Nat) (turns : List Turn) (g : Graph)
    (serial : Nat) (h : History .empty first turns g serial) (edge : Edge) (he : edge ∈ g.edges) :
    ∃ s u, g.node? edge.source = some s ∧ g.node? edge.target = some u ∧
      (g.verdict? edge = none ∨ ∃ a b, s.outputDim = some a ∧ u.inputDim = some b ∧ a ≠ b ∧
        g.verdict? edge = some (.dimensionMismatch a b)) ∧
      ∃ before made after, turns = before ++ made :: after ∧
        made.command = .connect edge.source edge.target ∧ made.Creates edge ∧
        (∀ t ∈ after, ¬ t.Creates edge) ∧
        (SparesEnds after edge s.kind u.kind → g.verdict? edge = none) := by
  obtain ⟨s, u, hs, hu⟩ := h.sound.exists_ends he
  obtain ⟨before, made, after, hturns, hcommand, hmade, hlast, hright⟩ := exists_creation h edge he
  exact ⟨s, u, hs, hu, verdict?_cases h he hs hu,
    before, made, after, hturns, hcommand, hmade, hlast, hright s u hs hu⟩

/-- Two linear layers in a chain, the first of which gets another number of outputs afterwards. -/
def widenedChain : List Command :=
  [.addNode .linear, .addNode .linear, .connect ⟨"linear_1"⟩ ⟨"linear_2"⟩,
    .patch ⟨"linear_2"⟩ "outFeatures" (.ofWhole .double false 8),
    .patch ⟨"linear_1"⟩ "outFeatures" (.ofWhole .double false 32)]

theorem a_widened_chain_is_stale :
    let turns := play .empty 0 widenedChain
    let g := (run .empty 0 widenedChain).1
    let edge := Edge.between ⟨"linear_1"⟩ ⟨"linear_2"⟩
    edge ∈ g.edges ∧ g.verdict? edge = some (.dimensionMismatch 32 16) ∧
      ∃ s u, g.node? edge.source = some s ∧ g.node? edge.target = some u ∧
        ∃ before made after, turns = before ++ made :: after ∧ made.Creates edge ∧
          ¬ SparesEnds after edge s.kind u.kind := by
  intro turns g edge
  have h : History .empty 0 turns g _ := History.nil.play widenedChain
  have he : edge ∈ g.edges := by decide +kernel
  have hstale : g.verdict? edge = some (.dimensionMismatch 32 16) := by decide +kernel
  obtain ⟨s, u, hs, hu, _, before, made, after, hturns, _, hmade, _, hright⟩ :=
    an_edge_goes_stale_only_by_its_dimensions 0 turns g _ h edge he
  refine ⟨he, hstale, s, u, hs, hu, before, made, after, hturns, hmade, fun hspares => ?_⟩
  rw [hright hspares] at hstale
  simp at hstale

end Graph

end NetEditor
