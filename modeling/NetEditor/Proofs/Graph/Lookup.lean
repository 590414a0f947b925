-- The law of telling names. The name that a node was given tells its kind and its serial number,
-- and the name of an edge between two such nodes tells its ends. So an edge is looked for by its
-- name as it is by its ends.
import NetEditor.Proofs.Graph.Reachable
import Mathlib.Data.List.Find

namespace NetEditor.Graph

variable {g : Graph} {serial : Nat}

theorem Sound.edge?_between (h : Sound g serial) (source target : NodeId) :
    g.edge? (EdgeId.between source target) = g.edgeBetween? source target := by
  refine List.find?_congr fun edge he => ?_
  rw [← Bool.decide_and]
  exact decide_eq_decide.mpr (h.edge_id_eq_between_iff he)

/-- Two names that the editor gives are one name just if kind and serial number agree, and different
serial numbers are enough to tell them apart. The name of an edge between two nodes named so is not
made of any other two names. Hence in every graph that commands make of an empty one, an edge is
found under its name just as it is found between its ends. -/
theorem a_name_tells_what_it_names :
    (∀ (a b : Layer.Kind) (m n : Nat),
        NodeId.numbered a m = NodeId.numbered b n ↔ a = b ∧ m = n) ∧
      (∀ (a b : Layer.Kind) (m n : Nat), m ≠ n → NodeId.numbered a m ≠ NodeId.numbered b n) ∧
      (∀ s t s' t' : NodeId, s.IsNumbered → t.IsNumbered →
        (EdgeId.between s t = EdgeId.between s' t' ↔ s = s' ∧ t = t')) ∧
      ∀ (g : Graph) (serial : Nat), Reachable g serial → ∀ source target,
        g.edge? (EdgeId.between source target) = g.edgeBetween? source target := by
  refine ⟨fun a b m n => NodeId.numbered_inj, fun a b m n hne heq => ?_,
    fun s t s' t' hs ht => EdgeId.between_inj hs ht, fun g serial h => ?_⟩
  · obtain ⟨_, hserial⟩ := NodeId.numbered_inj.mp heq
    exact hne hserial
  · exact (sound_of_reachable h).edge?_between

theorem a_chain_and_its_loop_are_told_apart :
    let linear := NodeId.numbered .linear 1
    let relu := NodeId.numbered .relu 2
    linear.IsNumbered ∧ relu.IsNumbered ∧ linear ≠ relu ∧
      EdgeId.between linear relu ≠ EdgeId.between relu relu ∧
      Reachable loopedChain.1 loopedChain.2 ∧
      loopedChain.1.edge? (EdgeId.between relu relu) = loopedChain.1.edgeBetween? relu relu ∧
      loopedChain.1.edgeBetween? relu relu = some ⟨⟨"relu_2->relu_2"⟩, relu, relu⟩ := by
  intro linear relu
  obtain ⟨_, hserials, hedges, hfound⟩ := a_name_tells_what_it_names
  have hlinear : linear.IsNumbered := ⟨.linear, 1, rfl⟩
  have hrelu : relu.IsNumbered := ⟨.relu, 2, rfl⟩
  have hne : linear ≠ relu := hserials .linear .relu 1 2 (by decide)
  have h : Reachable loopedChain.1 loopedChain.2 := (Reachable.empty 0).run _
  refine ⟨hlinear, hrelu, hne, fun heq => ?_, h, hfound _ _ h relu relu, by decide +kernel⟩
  exact hne ((hedges linear relu relu relu hlinear hrelu).mp heq).1

/-- Names that the editor would not give can run into each other at the arrow. -/
example : EdgeId.between ⟨"a->b"⟩ ⟨"c"⟩ = EdgeId.between ⟨"a"⟩ ⟨"b->c"⟩ := by decide

end NetEditor.Graph
