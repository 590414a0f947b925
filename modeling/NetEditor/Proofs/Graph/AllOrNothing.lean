-- The law of single commands: each one takes effect as a whole or not at all. It says so itself,
-- and when it fails it names the first thing that stood in its way.
import NetEditor.Proofs.Graph.InPlace
import NetEditor.Proofs.Graph.Reachable

namespace NetEditor.Graph

variable {g : Graph} {serial : Nat}

/-! ## What is not found -/

theorem node?_eq_none_iff {id : NodeId} : g.node? id = none ↔ id ∉ g.nodes.map Node.id := by
  simp [node?, List.find?_eq_none, List.mem_map]

theorem edge?_eq_none_iff {id : EdgeId} : g.edge? id = none ↔ ∀ edge ∈ g.edges, edge.id ≠ id := by
  simp [edge?, List.find?_eq_none]

theorem edgeBetween?_eq_none_iff {source target : NodeId} : g.edgeBetween? source target = none ↔
    ∀ edge ∈ g.edges, ¬ (edge.source = source ∧ edge.target = target) := by
  simp [edgeBetween?, List.find?_eq_none]

theorem edgeBetween?_spec {source target : NodeId} {edge : Edge}
    (h : g.edgeBetween? source target = some edge) :
    edge ∈ g.edges ∧ edge.source = source ∧ edge.target = target := by
  have hends := List.find?_some h
  simp only [Bool.and_eq_true, decide_eq_true_eq] at hends
  exact ⟨List.mem_of_find?_eq_some h, hends⟩

/-- A pair is connected by one edge, so that is the one found. -/
theorem Sound.edgeBetween?_of_mem (h : Sound g serial) {edge : Edge} (he : edge ∈ g.edges) :
    g.edgeBetween? edge.source edge.target = some edge := by
  have hfound := find?_of_mem_of_nodup h.pairs_nodup he
  simpa [edgeBetween?] using hfound

/-! ## What stands in the way of a command -/

/-- The command names a node or an edge that is not there, or a pair of nodes that is not connected
and may not be. A missing source comes first, and then a missing target. -/
inductive Blocked (g : Graph) : Command → Failure → Prop
  | node {c : Command} {id : NodeId} (hc : c.subject? = some id) (h : id ∉ g.nodes.map Node.id) :
      Blocked g c (.nodeMissing id)
  | source {source target : NodeId} (h : source ∉ g.nodes.map Node.id) :
      Blocked g (.connect source target) (.nodeMissing source)
  | target {source target : NodeId} (hs : source ∈ g.nodes.map Node.id)
      (ht : target ∉ g.nodes.map Node.id) :
      Blocked g (.connect source target) (.nodeMissing target)
  | refused {s t : Node} {reason : Refusal} (hs : s ∈ g.nodes) (ht : t ∈ g.nodes)
      (hnew : ∀ edge ∈ g.edges, ¬ (edge.source = s.id ∧ edge.target = t.id))
      (hr : connectionRefusal? (some s) (some t) = some reason) :
      Blocked g (.connect s.id t.id) (.connectionRefused s.kind t.kind reason)
  | edge {id : EdgeId} (h : ∀ edge ∈ g.edges, edge.id ≠ id) :
      Blocked g (.disconnect id) (.edgeMissing id)

theorem mem_ids_of_node? {id : NodeId} {node : Node} (h : g.node? id = some node) :
    id ∈ g.nodes.map Node.id := by
  rw [← node?_id h]
  exact List.mem_map_of_mem (mem_of_node? h)

theorem blocked_of_failed {c : Command} {outcome : Outcome} {next : Graph}
    (h : Ran g serial c outcome next) {reason : Failure} (hout : outcome = .failed reason) :
    Blocked g c reason := by
  cases h with
  | missing hc hn =>
    cases hout
    exact .node hc (node?_eq_none_iff.mp hn)
  | missingSource hs =>
    cases hout
    exact .source (node?_eq_none_iff.mp hs)
  | missingTarget hs ht =>
    cases hout
    exact .target (mem_ids_of_node? hs) (node?_eq_none_iff.mp ht)
  | refused hs ht hnew hr =>
    cases hout
    obtain rfl := node?_id hs
    obtain rfl := node?_id ht
    exact .refused (mem_of_node? hs) (mem_of_node? ht) (edgeBetween?_eq_none_iff.mp hnew) hr
  | missingEdge he =>
    cases hout
    exact .edge (edge?_eq_none_iff.mp he)
  | _ => cases hout

theorem failed_of_blocked (hsound : Sound g serial) {c : Command} {reason : Failure}
    (h : Blocked g c reason) : (g.apply serial c).1 = .failed reason := by
  cases h with
  | node hc h =>
    have hn := node?_eq_none_iff.mpr h
    cases c with
    | patchText id name raw =>
      obtain rfl := Option.some.inj hc
      cases hv : typedNumber? raw <;> simp [apply, patchText, patch, hv, hn, settle]
    | removeNode id =>
      obtain rfl := Option.some.inj hc
      simp [apply, removeNode, hn, settle]
    | patch id name value =>
      obtain rfl := Option.some.inj hc
      simp [apply, patch, hn, settle]
    | moveNode id position =>
      obtain rfl := Option.some.inj hc
      simp [apply, moveNode, hn, settle, Except.map]
    | _ => simp [Command.subject?] at hc
  | source h => simp [apply, connect, node?_eq_none_iff.mpr h, settle]
  | target hs ht =>
    obtain ⟨s, hs⟩ := exists_node?_of_mem_ids (roster_ids g ▸ hs)
    simp [apply, connect, hs, node?_eq_none_iff.mpr ht, settle]
  | refused hs ht hnew hr =>
    have hs' := hsound.node?_of_mem hs
    have ht' := hsound.node?_of_mem ht
    have hr' := hr
    rw [connectionRefusal?] at hr'
    simp [apply, connect, hs', ht', edgeBetween?_eq_none_iff.mpr hnew, hr', settle]
  | edge h => simp [apply, disconnect, edge?_eq_none_iff.mpr h, settle]

/-! ## The law -/

structure AllOrNothing (g : Graph) (serial : Nat) (c : Command) : Prop where
  /-- A command without success leaves nodes, edges and revision. -/
  no_trace : (g.apply serial c).1.isSuccess = false → (g.apply serial c).2 = g
  /-- A success raises the revision by one, but for a connection that is there already. -/
  one_revision : (g.apply serial c).1.isSuccess = true →
    (∀ edge ∈ g.edges, c ≠ .connect edge.source edge.target) →
    (g.apply serial c).2.revision = g.revision + 1
  /-- A connection that is there stays, whatever would be said to it now. -/
  connected_stays : ∀ edge ∈ g.edges, c = .connect edge.source edge.target →
    g.apply serial c = (.connected edge.id, g)
  /-- There is something to tell exactly if the command had no success. -/
  told : (g.apply serial c).1.message?.isSome = true ↔ (g.apply serial c).1.isSuccess = false
  /-- The command fails exactly if it is blocked, and says by what. -/
  failed_iff : ∀ reason, (g.apply serial c).1 = .failed reason ↔ Blocked g c reason
  /-- The command comes to the same if every step of it writes to the graph at once, so no check
  that is made after a step that writes ever fails. -/
  in_place : InPlace.apply g serial c = g.apply serial c

theorem graph_of_not_success {c : Command} {outcome : Outcome} {next : Graph}
    (h : Ran g serial c outcome next) (hout : outcome.isSuccess = false) : next = g := by
  cases h with
  | added | removed | moved | applied | connected | disconnected | kept =>
    simp [Outcome.isSuccess] at hout
  | _ => rfl

theorem revision_of_success {c : Command} {outcome : Outcome} {next : Graph}
    (h : Ran g serial c outcome next) (hout : outcome.isSuccess = true)
    (hc : ∀ edge ∈ g.edges, c ≠ .connect edge.source edge.target) :
    next.revision = g.revision + 1 := by
  cases h with
  | added | removed | moved | applied | connected | disconnected => rfl
  | kept hs ht he =>
    obtain ⟨hmem, rfl, rfl⟩ := edgeBetween?_spec he
    exact absurd rfl (hc _ hmem)
  | _ => simp [Outcome.isSuccess] at hout

theorem apply_connect_of_mem (hsound : Sound g serial) {edge : Edge} (he : edge ∈ g.edges) :
    g.apply serial (.connect edge.source edge.target) = (.connected edge.id, g) := by
  obtain ⟨hsource, htarget⟩ := hsound.ends_listed edge he
  obtain ⟨s, hs⟩ := exists_node?_of_mem_ids hsource
  obtain ⟨t, ht⟩ := exists_node?_of_mem_ids htarget
  simp [apply, connect, hs, ht, hsound.edgeBetween?_of_mem he, settle]

/-- On a graph that commands have made, every command takes effect as a whole or leaves everything
as it was, tells which, and fails exactly for a node or an edge that is missing and for a new
connection that is not allowed. -/
theorem a_command_takes_effect_or_leaves_no_trace (g : Graph) (serial : Nat) (c : Command)
    (h : Reachable g serial) : AllOrNothing g serial c where
  no_trace := graph_of_not_success (ran_apply g serial c)
  one_revision := revision_of_success (ran_apply g serial c)
  connected_stays edge he hc := hc ▸ apply_connect_of_mem (sound_of_reachable h) he
  told := by simp [Outcome.message?_isSome]
  failed_iff _ :=
    ⟨blocked_of_failed (ran_apply g serial c), failed_of_blocked (sound_of_reachable h)⟩
  in_place := InPlace.apply_eq g serial c

/-- Two linear layers that were connected before the first got another number of outputs. -/
def widenedPair : Graph × Nat :=
  run .empty 0 [.addNode .linear, .addNode .linear, .connect ⟨"linear_1"⟩ ⟨"linear_2"⟩,
    .patch ⟨"linear_1"⟩ "outFeatures" (.ofWhole .double false 32)]

theorem a_stale_connection_is_not_judged_again :
    let again := Edge.between ⟨"linear_1"⟩ ⟨"linear_2"⟩
    Reachable widenedPair.1 widenedPair.2 ∧
      AllOrNothing widenedPair.1 widenedPair.2 (.connect again.source again.target) ∧
      connectionRefusal? (widenedPair.1.node? again.source) (widenedPair.1.node? again.target) =
        some (.dimensionMismatch 32 16) ∧
      widenedPair.1.apply widenedPair.2 (.connect again.source again.target) =
        (.connected again.id, widenedPair.1) := by
  intro again
  have h : Reachable widenedPair.1 widenedPair.2 := (Reachable.empty 0).run _
  have hlaw := a_command_takes_effect_or_leaves_no_trace _ _
    (.connect again.source again.target) h
  exact ⟨h, hlaw, by decide +kernel, hlaw.connected_stays again (by decide +kernel) rfl⟩

end NetEditor.Graph
