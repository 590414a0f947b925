-- The law of what commands leave alone. A command that takes effect does its work on the one node
-- or edge that it names, and every other node and edge stays as it is and where it is.
import NetEditor.Proofs.Graph.Revision
import NetEditor.Proofs.Layer.Calls
import NetEditor.Workspace

namespace NetEditor

/-! ## The place of an item in a list -/

section

variable {α β : Type} {name : α → β} {items front back : List α} {item : α}

/-- Of items with names of their own, none before an item has its name. -/
theorem name_ne_of_split (h : (items.map name).Nodup) (hsplit : items = front ++ item :: back) :
    ∀ other ∈ front, name other ≠ name item := by
  rw [hsplit, List.map_append, List.nodup_append] at h
  intro other ho
  exact h.2.2 _ (List.mem_map_of_mem ho) _ (List.mem_map_of_mem List.mem_cons_self)

/-- Taking out an item that would be filtered out anyway makes no difference. -/
theorem filter_eraseP {p q : α → Bool} (h : ∀ item ∈ items, q item = true → p item = false) :
    (items.eraseP q).filter p = items.filter p := by
  induction items with
  | nil => rfl
  | cons item rest ih =>
    rw [List.forall_mem_cons] at h
    by_cases hq : q item = true
    · rw [List.eraseP_cons_of_pos hq, List.filter_cons_of_neg (by simp [h.1 hq])]
    · rw [List.eraseP_cons_of_neg hq, List.filter_cons, List.filter_cons, ih h.2]

variable [DecidableEq β]

theorem find?_of_split (h : (items.map name).Nodup) (hsplit : items = front ++ item :: back) :
    items.find? (fun other => name other = name item) = some item :=
  find?_of_mem_of_nodup h (hsplit ▸ List.mem_append_right _ List.mem_cons_self)

theorem eraseP_of_split (h : (items.map name).Nodup) (hsplit : items = front ++ item :: back) :
    items.eraseP (fun other => name other = name item) = front ++ back := by
  have hfront := name_ne_of_split h hsplit
  rw [hsplit, List.eraseP_append_right _ (by simpa using hfront),
    List.eraseP_cons_of_pos (by simp)]

end

namespace Graph

variable {g : Graph} {serial : Nat}

theorem Sound.node_ids_nodup (h : Sound g serial) : (g.nodes.map Node.id).Nodup :=
  roster_ids g ▸ h.ids_nodup

theorem Sound.edge_ids_nodup (h : Sound g serial) : (g.edges.map Edge.id).Nodup :=
  h.pairs_nodup.of_map.map_on fun _ ha _ hb => h.edge_id_injective ha hb

theorem edge?_id {id : EdgeId} {edge : Edge} (h : g.edge? id = some edge) : edge.id = id := by
  simpa using List.find?_some h

/-! ## Effects -/

/-- What a command that takes effect tells, and the graph that it leaves: nothing but the one node
or edge that it names is another one, and the edges of a node go with it. -/
inductive Effect (g : Graph) (serial : Nat) : Command → Outcome → Graph → Prop
  | added {kind : Layer.Kind} {node : Node} (hid : node.id = NodeId.numbered kind (serial + 1))
      (hnew : node.id ∉ g.nodes.map Node.id) (hrecord : node.record = Layer.Record.initial kind)
      (hplace : node.position = ⟨.ofWhole .single false 200, .ofWhole .single false 200⟩) :
      Effect g serial (.addNode kind) (.nodeAdded node) (g.commit (g.nodes ++ [node]) g.edges)
  | removed {node : Node} {front back : List Node} (h : g.nodes = front ++ node :: back) :
      Effect g serial (.removeNode node.id) (.nodeRemoved node)
        (g.commit (front ++ back) (g.edges.filter fun edge => !edge.touches node.id))
  | moved {node : Node} {front back : List Node} (position : Position)
      (h : g.nodes = front ++ node :: back) :
      Effect g serial (.moveNode node.id position) .nodeMoved
        (g.commit (front ++ { node with position := position } :: back) g.edges)
  | patched {c : Command} {node : Node} {front back : List Node} {name : String} {value : Double}
      {record : Layer.Record} {next : Graph} (h : g.nodes = front ++ node :: back)
      (hc : c.setting? = some (node.id, name, value))
      (hr : node.record.ChangesTo name value record)
      (hnext : next = g.commit (front ++ { node with record := record } :: back) g.edges) :
      Effect g serial c (.patched (.applied (next.hintsAfter node name))) next
  | connected {s t : Node} (hs : s ∈ g.nodes) (ht : t ∈ g.nodes)
      (hnew : ∀ edge ∈ g.edges, ¬ (edge.source = s.id ∧ edge.target = t.id))
      (hr : s.refusal? t = none) :
      Effect g serial (.connect s.id t.id) (.connected (EdgeId.between s.id t.id))
        (g.commit g.nodes (g.edges ++ [Edge.between s.id t.id]))
  | disconnected {edge : Edge} {front back : List Edge} (h : g.edges = front ++ edge :: back) :
      Effect g serial (.disconnect edge.id) (.disconnected edge) (g.commit g.nodes (front ++ back))

variable {c : Command} {outcome : Outcome} {next : Graph}

theorem Sound.updateNode_of_split (h : Sound g serial) {node : Node} {front back : List Node}
    (hsplit : g.nodes = front ++ node :: back) (change : Node → Node) :
    updateNode node.id change g.nodes = front ++ change node :: back := by
  have hfront := name_ne_of_split h.node_ids_nodup hsplit
  rw [hsplit]
  exact Graph.updateNode_of_split hfront rfl

theorem apply_of_effect (hsound : Sound g serial) (h : Effect g serial c outcome next) :
    g.apply serial c = (outcome, next) := by
  cases h with
  | @added kind node hid _ hrecord hplace =>
    obtain ⟨id, record, position⟩ := node
    simp only at hid hrecord hplace
    subst hid hrecord hplace
    rfl
  | removed hsplit =>
    have hfound := find?_of_split hsound.node_ids_nodup hsplit
    have herase := eraseP_of_split hsound.node_ids_nodup hsplit
    simp only [apply, removeNode, node?, hfound, herase, settle]
  | moved position hsplit =>
    have hfound := find?_of_split hsound.node_ids_nodup hsplit
    simp only [apply, moveNode, node?, hfound, hsound.updateNode_of_split hsplit, settle,
      Except.map]
  | patched hsplit hc hr hnext =>
    have hfound := find?_of_split hsound.node_ids_nodup hsplit
    have hset := Layer.Record.set_eq_ok_iff.mpr hr
    simp only [apply_of_setting hc, patch, node?, hfound, hset, hsound.updateNode_of_split hsplit,
      settle, ← hnext, hintsAfter]
  | connected hs ht hnew hr =>
    simp only [apply, connect, hsound.node?_of_mem hs, hsound.node?_of_mem ht,
      edgeBetween?_eq_none_iff.mpr hnew, hr, settle, Edge.between]
  | disconnected hsplit =>
    have hfound := find?_of_split hsound.edge_ids_nodup hsplit
    have herase := eraseP_of_split hsound.edge_ids_nodup hsplit
    simp only [apply, disconnect, edge?, hfound, herase, settle]

theorem tookEffect_of_effect (hsound : Sound g serial) (h : Effect g serial c outcome next) :
    (g.turn serial c).tookEffect = true := by
  have hout : (g.turn serial c).outcome = outcome := congrArg Prod.fst (apply_of_effect hsound h)
  have hsuccess : outcome.isSuccess = true := by cases h <;> rfl
  have hrepeats : (g.turn serial c).repeats = false := by
    rw [Turn.repeats_eq_false_iff]
    intro edge he hconnect
    simp only [turn] at he hconnect
    cases h with
    | patched _ hc _ _ => simp [hconnect, Command.setting?] at hc
    | connected _ _ hnew _ =>
      obtain ⟨hsource, htarget⟩ := Command.connect.inj hconnect
      exact hnew edge he ⟨hsource.symm, htarget.symm⟩
    | _ => simp at hconnect
  rw [Turn.tookEffect, hout, hsuccess, hrepeats]
  rfl

/-- Every command that takes effect has one of the effects. -/
theorem effect_of_tookEffect (hsound : Sound g serial)
    (htook : (g.turn serial c).tookEffect = true) :
    Effect g serial c (g.apply serial c).1 (g.apply serial c).2 := by
  have h := ran_apply g serial c
  simp only [Turn.tookEffect, Bool.and_eq_true, Bool.not_eq_eq_eq_not, Bool.not_true,
    Turn.repeats_eq_false_iff, turn] at htook
  obtain ⟨hsuccess, hnorepeat⟩ := htook
  generalize (g.apply serial c).1 = outcome, (g.apply serial c).2 = next at h hsuccess ⊢
  cases h with
  | added kind =>
    exact .added rfl (roster_ids g ▸ hsound.next_notMem kind) rfl rfl
  | removed hn =>
    obtain rfl := node?_id hn
    obtain ⟨front, back, hsplit⟩ := List.append_of_mem (mem_of_node? hn)
    have herase := eraseP_of_split hsound.node_ids_nodup hsplit
    rw [withoutNode, herase]
    exact .removed hsplit
  | moved position hn =>
    obtain rfl := node?_id hn
    obtain ⟨front, back, hsplit⟩ := List.append_of_mem (mem_of_node? hn)
    rw [withChange, hsound.updateNode_of_split hsplit]
    exact .moved position hsplit
  | applied hc hn hr =>
    obtain rfl := node?_id hn
    obtain ⟨front, back, hsplit⟩ := List.append_of_mem (mem_of_node? hn)
    refine .patched hsplit hc (Layer.Record.set_eq_ok_iff.mp hr) ?_
    rw [withChange, hsound.updateNode_of_split hsplit]
  | connected hs ht hnew hr =>
    obtain rfl := node?_id hs
    obtain rfl := node?_id ht
    exact .connected (mem_of_node? hs) (mem_of_node? ht) (edgeBetween?_eq_none_iff.mp hnew) hr
  | disconnected he =>
    obtain rfl := edge?_id he
    obtain ⟨front, back, hsplit⟩ := List.append_of_mem (List.mem_of_find?_eq_some he)
    have herase := eraseP_of_split hsound.edge_ids_nodup hsplit
    rw [withoutEdge, herase]
    exact .disconnected hsplit
  | kept _ _ he =>
    obtain ⟨hmem, rfl, rfl⟩ := edgeBetween?_spec he
    exact absurd rfl (hnorepeat _ hmem)
  | _ => simp [Outcome.isSuccess] at hsuccess

end Graph

namespace Sheet

/-- A sheet and the count of added nodes after a list of commands. -/
def run (sheet : Sheet) (serial : Nat) (cs : List Command) : Sheet × Nat :=
  cs.foldl (fun now c => ((now.1.apply now.2 c).2, c.serialAfter now.2)) (sheet, serial)

/-- Commands change nothing of a sheet but its graph. -/
theorem run_eq (sheet : Sheet) (serial : Nat) (cs : List Command) :
    sheet.run serial cs =
      (⟨sheet.title, (sheet.graph.run serial cs).1⟩, (sheet.graph.run serial cs).2) := by
  induction cs generalizing sheet serial with
  | nil => rfl
  | cons c rest ih => exact ih (sheet.apply serial c).2 (c.serialAfter serial)

end Sheet

namespace Graph

/-! ## The law -/

/-- On a sheet whose graph commands have made, a command that takes effect has exactly the effect
that it is for, and whatever has such an effect takes effect. No commands change the title. -/
theorem a_command_changes_only_what_it_names (sheet : Sheet) (serial : Nat)
    (h : Reachable sheet.graph serial) :
    (∀ c outcome next, Effect sheet.graph serial c outcome next ↔
      sheet.apply serial c = (outcome, ⟨sheet.title, next⟩) ∧
        (sheet.graph.turn serial c).tookEffect = true) ∧
      ∀ cs, (sheet.run serial cs).1.title = sheet.title := by
  have hsound := sound_of_reachable h
  refine ⟨fun c outcome next => ⟨fun heffect => ?_, fun ⟨happly, htook⟩ => ?_⟩, fun cs => ?_⟩
  · refine ⟨?_, tookEffect_of_effect hsound heffect⟩
    simp only [Sheet.apply, apply_of_effect hsound heffect]
  · have heffect := effect_of_tookEffect hsound htook
    simp only [Sheet.apply, Prod.mk.injEq, Sheet.mk.injEq, true_and] at happly
    rwa [happly.1, happly.2] at heffect
  · rw [Sheet.run_eq]

/-- The first layer goes with its edge to the second, whose edge to itself stays. -/
theorem a_loop_outlives_the_layer_before_it :
    let sheet : Sheet := ⟨"sketch", loopedChain.1⟩
    let rest : Graph :=
      ⟨[Node.initial ⟨"relu_2"⟩ .relu], [Edge.between ⟨"relu_2"⟩ ⟨"relu_2"⟩], 5⟩
    Reachable sheet.graph loopedChain.2 ∧
      Effect sheet.graph loopedChain.2 (.removeNode ⟨"linear_1"⟩)
        (.nodeRemoved (Node.initial ⟨"linear_1"⟩ .linear)) rest ∧
      (sheet.run loopedChain.2 [.removeNode ⟨"linear_1"⟩]).1 = ⟨"sketch", rest⟩ := by
  intro sheet rest
  have h : Reachable sheet.graph loopedChain.2 := (Reachable.empty 0).run _
  have hlaw := a_command_changes_only_what_it_names sheet loopedChain.2 h
  exact ⟨h, (hlaw.1 _ _ _).mpr ⟨by decide +kernel, by decide +kernel⟩, by decide +kernel⟩

end Graph

end NetEditor
