-- The laws of changing one node in a list. The first node of a name is changed and stays where it
-- is, and the others stay as they are.
import NetEditor.Graph.Edit
import Mathlib.Data.List.Nodup

namespace NetEditor.Graph

variable {id : NodeId} {change change' : Node → Node} {nodes : List Node} {node : Node}

/-! ## What a change is -/

/-- Only what becomes of the node that is found counts. -/
theorem updateNode_congr
    (h : ∀ node, nodes.find? (fun other => other.id = id) = some node →
      change node = change' node) :
    updateNode id change nodes = updateNode id change' nodes := by
  induction nodes with
  | nil => rfl
  | cons first rest ih =>
    by_cases hf : first.id = id
    · simp only [updateNode, if_pos hf, h first (by simp [hf])]
    · simp only [updateNode, if_neg hf]
      rw [ih fun node hn => h node (by simpa [hf] using hn)]

/-- What the change keeps of the node that is found is kept of all nodes. -/
theorem map_updateNode {β : Type} (f : Node → β)
    (h : ∀ node, nodes.find? (fun other => other.id = id) = some node → f (change node) = f node) :
    (updateNode id change nodes).map f = nodes.map f := by
  induction nodes with
  | nil => rfl
  | cons first rest ih =>
    by_cases hf : first.id = id
    · simp only [updateNode, if_pos hf, List.map_cons, h first (by simp [hf])]
    · simp only [updateNode, if_neg hf, List.map_cons]
      rw [ih fun node hn => h node (by simpa [hf] using hn)]

theorem updateNode_eq_self
    (h : ∀ node, nodes.find? (fun other => other.id = id) = some node → change node = node) :
    updateNode id change nodes = nodes := by
  have hmap := map_updateNode (fun node => node) h
  rwa [List.map_id', List.map_id'] at hmap

theorem updateNode_of_split {front back : List Node} (hfront : ∀ other ∈ front, other.id ≠ id)
    (hid : node.id = id) :
    updateNode id change (front ++ node :: back) = front ++ change node :: back := by
  induction front with
  | nil => simp [updateNode, hid]
  | cons first rest ih =>
    rw [List.forall_mem_cons] at hfront
    simp [updateNode, hfront.1, ih hfront.2]

/-! ## Two changes -/

/-- A change that keeps names comes to the same before and after the change of one node. -/
theorem map_updateNode_comm (f change change' : Node → Node) (hid : ∀ node, (f node).id = node.id)
    (h : ∀ node, f (change node) = change' (f node)) (id : NodeId) (nodes : List Node) :
    (updateNode id change nodes).map f = updateNode id change' (nodes.map f) := by
  induction nodes with
  | nil => rfl
  | cons first rest ih =>
    simp only [updateNode, List.map_cons, hid]
    split
    · rw [List.map_cons, h]
    · rw [List.map_cons, ih]

/-- Changes that keep names may be made in either order, unless it matters to a node that both are
for. -/
theorem updateNode_comm {a b : NodeId} (hid : ∀ node, (change node).id = node.id)
    (hid' : ∀ node, (change' node).id = node.id)
    (h : a = b → ∀ node, change' (change node) = change (change' node)) (nodes : List Node) :
    updateNode b change' (updateNode a change nodes) =
      updateNode a change (updateNode b change' nodes) := by
  induction nodes with
  | nil => rfl
  | cons first rest ih =>
    by_cases ha : first.id = a <;> by_cases hb : first.id = b
    · simp only [updateNode, if_pos ha, if_pos hb, hid, hid', h (ha.symm.trans hb)]
    · simp only [updateNode, if_pos ha, if_neg hb, hid]
    · simp only [updateNode, if_neg ha, if_pos hb, hid']
    · simp only [updateNode, if_neg ha, if_neg hb, ih]

/-! ## What is found after a change -/

theorem find?_updateNode_self (h : nodes.find? (fun other => other.id = id) = some node)
    (hid : (change node).id = node.id) :
    (updateNode id change nodes).find? (fun other => other.id = id) = some (change node) := by
  induction nodes with
  | nil => simp at h
  | cons first rest ih =>
    by_cases hf : first.id = id
    · simp only [hf, decide_true, List.find?_cons_of_pos, Option.some.injEq] at h
      subst h
      simp [updateNode, hf, hid]
    · simp only [hf, decide_false, Bool.false_eq_true, not_false_eq_true,
        List.find?_cons_of_neg] at h
      simp [updateNode, hf, ih h]

theorem find?_updateNode_of_ne {other : NodeId} (hne : other ≠ id) (nodes : List Node)
    (hid : ∀ node, (change node).id = node.id) :
    (updateNode id change nodes).find? (fun node => node.id = other) =
      nodes.find? fun node => node.id = other := by
  induction nodes with
  | nil => rfl
  | cons first rest ih =>
    unfold updateNode
    split
    · rename_i hf
      have hother : ¬ first.id = other := fun heq => hne (heq.symm.trans hf)
      simp [hid, hother]
    · simp only [List.find?_cons, ih]

/-- A changed node is the one found under its name, and every other node is as it was. -/
theorem mem_updateNode (hids : (nodes.map Node.id).Nodup) (hm : node ∈ updateNode id change nodes) :
    (node ∈ nodes ∧ node.id ≠ id) ∨ ∃ old ∈ nodes, old.id = id ∧ node = change old := by
  induction nodes with
  | nil => simp [updateNode] at hm
  | cons first rest ih =>
    rw [List.map_cons, List.nodup_cons] at hids
    unfold updateNode at hm
    split at hm
    · rename_i hf
      rcases List.mem_cons.mp hm with rfl | hm
      · exact Or.inr ⟨first, List.mem_cons_self, hf, rfl⟩
      · refine Or.inl ⟨List.mem_cons_of_mem _ hm, fun hid => hids.1 ?_⟩
        rw [hf, ← hid]
        exact List.mem_map_of_mem hm
    · rename_i hf
      rcases List.mem_cons.mp hm with rfl | hm
      · exact Or.inl ⟨List.mem_cons_self, hf⟩
      · rcases ih hids.2 hm with ⟨hr, hne⟩ | ⟨old, ho, hid, heq⟩
        · exact Or.inl ⟨List.mem_cons_of_mem _ hr, hne⟩
        · exact Or.inr ⟨old, List.mem_cons_of_mem _ ho, hid, heq⟩

end NetEditor.Graph
