-- The law of hints and connections. A hint is worked out without touching the graph, and it says
-- just what would come of taking its edge away and connecting the two nodes anew.
import NetEditor.Proofs.Graph.Frame
import NetEditor.Proofs.Graph.Hints

namespace NetEditor.Graph

variable {g : Graph} {serial : Nat} {edge : Edge}

/-! ## The hint for an edge -/

theorem Sound.pair_ne_of_split (h : Sound g serial) {front back : List Edge}
    (hsplit : g.edges = front ++ edge :: back) :
    ∀ other ∈ front ++ back, ¬ (other.source = edge.source ∧ other.target = edge.target) := by
  have hpairs := h.pairs_nodup
  rw [hsplit, List.map_append, List.map_cons, List.nodup_middle, ← List.map_append,
    List.nodup_cons] at hpairs
  intro other ho hends
  refine hpairs.1 (List.mem_map.mpr ⟨other, ho, ?_⟩)
  rw [hends.1, hends.2]

theorem Sound.filter_pair (h : Sound g serial) (he : edge ∈ g.edges) :
    ((g.edges.filter fun other => other.source = edge.source).filter
      fun other => other.target = edge.target) = [edge] := by
  obtain ⟨front, back, hsplit⟩ := List.append_of_mem he
  have hne := h.pair_ne_of_split hsplit
  rw [List.forall_mem_append] at hne
  rw [hsplit, List.filter_filter, List.filter_append, List.filter_cons_of_pos (by simp),
    List.filter_eq_nil_iff.mpr (by simpa [and_comm] using hne.1),
    List.filter_eq_nil_iff.mpr (by simpa [and_comm] using hne.2), List.nil_append]

theorem Sound.exists_hint (h : Sound g serial) (he : edge ∈ g.edges) :
    ∃ hint, ((g.hints edge.source).filter fun hint => hint.target = edge.target) = [hint] ∧
      hint.Tells g edge := by
  obtain ⟨s, _, hs, _⟩ := h.exists_ends he
  -- A hint is about the target of its edge, so picking by target keeps the two lists in step.
  have htarget : ∀ other hint, Hint.Tells hint g other →
      (decide (other.target = edge.target) = true ↔ decide (hint.target = edge.target) = true) := by
    rintro other hint ⟨_, _, _, _, rfl⟩
    rfl
  have hhints := List.rel_filter htarget (h.forall₂_hints hs)
  rw [h.filter_pair he] at hhints
  obtain ⟨hint, _, htells, hnil, heq⟩ := List.forall₂_cons_left_iff.mp hhints
  rw [List.forall₂_nil_left_iff.mp hnil] at heq
  exact ⟨hint, heq, htells⟩

/-! ## Connecting anew -/

/-- Takes an edge away and connects its two nodes again. -/
def reconnect (g : Graph) (edge : Edge) : Except Failure (EdgeId × Graph) :=
  match g.disconnect edge.id with
  | .error reason => .error reason
  | .ok (_, next) => next.connect edge.source edge.target

/-- With its edge gone, a pair of nodes is judged as a new one would be. -/
theorem Sound.reconnect_eq (h : Sound g serial) {front back : List Edge} {s t : Node}
    (hsplit : g.edges = front ++ edge :: back) (hs : g.node? edge.source = some s)
    (ht : g.node? edge.target = some t) :
    g.reconnect edge = match s.refusal? t with
      | some reason => .error (.connectionRefused s.kind t.kind reason)
      | none => .ok (edge.id, ⟨g.nodes, front ++ back ++ [edge], g.revision + 2⟩) := by
  have hmem : edge ∈ g.edges := hsplit ▸ List.mem_append_right _ List.mem_cons_self
  have hgone : g.disconnect edge.id = .ok (edge, g.commit g.nodes (front ++ back)) := by
    unfold disconnect edge?
    rw [find?_of_split h.edge_ids_nodup hsplit, eraseP_of_split h.edge_ids_nodup hsplit]
  have hnew : (g.commit g.nodes (front ++ back)).edgeBetween? edge.source edge.target = none :=
    edgeBetween?_eq_none_iff.mpr (h.pair_ne_of_split hsplit)
  have hsame : Edge.between edge.source edge.target = edge := by
    rw [Edge.between, ← h.edge_ids edge hmem]
  unfold reconnect
  rw [hgone]
  dsimp only
  unfold connect
  have hs' : (g.commit g.nodes (front ++ back)).node? edge.source = some s := hs
  have ht' : (g.commit g.nodes (front ++ back)).node? edge.target = some t := ht
  rw [hs', ht', hnew]
  dsimp only
  cases s.refusal? t with
  | some reason => rfl
  | none => simp only [hsame, commit]

/-! ## The law -/

structure Foretells (g : Graph) (edge : Edge) (hint : Hint) : Prop where
  only_one : ((g.hints edge.source).filter fun other => other.target = edge.target) = [hint]
  compatible_iff : hint.compatible = true ↔ ∃ done, g.reconnect edge = .ok done
  /-- The edge comes back under its name as the last one, and all else is as it was. -/
  comes_back : ∀ id next, g.reconnect edge = .ok (id, next) → id = edge.id ∧
    ∃ front back, g.edges = front ++ edge :: back ∧
      next = ⟨g.nodes, front ++ back ++ [edge], g.revision + 2⟩
  /-- Only the two dimensions of the hint can keep the edge from coming back. -/
  stays_away : ∀ reason, g.reconnect edge = .error reason → ∃ s t a b,
    g.node? edge.source = some s ∧ g.node? edge.target = some t ∧
      hint.incoming = some a ∧ hint.declared = some b ∧
      reason = .connectionRefused s.kind t.kind (.dimensionMismatch a b)
  stays : g.connect edge.source edge.target = .ok (edge.id, g)

/-- Whatever was done to a graph, each of its edges has one hint. It tells whether the two nodes
would be connected again if they were disconnected, and by which dimensions they would not. -/
theorem a_hint_foretells_a_new_connection (g : Graph) (serial : Nat) (edge : Edge)
    (h : Reachable g serial) (he : edge ∈ g.edges) : ∃ hint, Foretells g edge hint := by
  obtain ⟨first, turns, hhistory⟩ := History.exists_of_reachable h
  have hsound := sound_of_reachable h
  obtain ⟨hint, honly, s, t, hs, ht, rfl⟩ := hsound.exists_hint he
  obtain ⟨front, back, hsplit⟩ := List.append_of_mem he
  have hreconnect := hsound.reconnect_eq hsplit hs ht
  rw [← verdict?_eq hs ht] at hreconnect
  have hstays : g.connect edge.source edge.target = .ok (edge.id, g) := by
    unfold connect
    rw [hs, ht, hsound.edgeBetween?_of_mem he]
  refine ⟨_, honly, ?_, ?_, ?_, hstays⟩
  · rw [hreconnect, allows_eq_isNone]
    cases g.verdict? edge <;> simp
  · intro id next hdone
    rw [hreconnect] at hdone
    cases hv : g.verdict? edge with
    | some reason => simp [hv] at hdone
    | none =>
      simp only [hv, Except.ok.injEq, Prod.mk.injEq] at hdone
      exact ⟨hdone.1.symm, front, back, hsplit, hdone.2.symm⟩
  · intro reason hfailed
    rw [hreconnect] at hfailed
    rcases verdict?_cases hhistory he hs ht with hv | ⟨a, b, ha, hb, _, hv⟩
    · simp [hv] at hfailed
    · simp only [hv, Except.error.injEq] at hfailed
      exact ⟨s, t, a, b, hs, ht, ha, hb, hfailed.symm⟩

/-- The fan after its first layer was given another number of outputs. -/
def widenedFan : Graph × Nat :=
  fannedOut.1.run fannedOut.2 [.patchText ⟨"linear_1"⟩ "outFeatures" " 32 "]

theorem a_widened_layer_would_lose_its_loop :
    let loop := Edge.between ⟨"linear_1"⟩ ⟨"linear_1"⟩
    let hint : Hint := ⟨⟨"linear_1"⟩, .linear, some 32, some 16, false⟩
    Reachable widenedFan.1 widenedFan.2 ∧ loop ∈ widenedFan.1.edges ∧
      Foretells widenedFan.1 loop hint ∧
      widenedFan.1.reconnect loop =
        .error (.connectionRefused .linear .linear (.dimensionMismatch 32 16)) := by
  intro loop hint
  have h : Reachable widenedFan.1 widenedFan.2 := ((Reachable.empty 0).run _).run _
  have he : loop ∈ widenedFan.1.edges := by decide +kernel
  have honly : ((widenedFan.1.hints loop.source).filter fun other => other.target = loop.target) =
      [hint] := by decide +kernel
  obtain ⟨hint', hlaw⟩ := a_hint_foretells_a_new_connection _ _ loop h he
  obtain rfl : hint' = hint := (List.cons.inj (hlaw.only_one.symm.trans honly)).1
  exact ⟨h, he, hlaw, by decide +kernel⟩

end NetEditor.Graph
