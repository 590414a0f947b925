-- The law of entries. All entries have the same keys, none of which is the name of another member,
-- and under them all that there is to know of a layer but its place.
import NetEditor.Proofs.Training.Entries
import Mathlib.Data.String.Basic

namespace NetEditor

/-! ## Keys -/

namespace Dictionary

variable {α : Type} {key other : String} {value : α} {d : Dictionary α}

/-- The keys come in their order, none of them twice. -/
def Ascending (d : Dictionary α) : Prop := (d.map Prod.fst).Pairwise (· < ·)

theorem Ascending.nodup (h : d.Ascending) : (d.map Prod.fst).Nodup := h.imp fun hlt => hlt.ne

theorem mem_keys_insert :
    other ∈ (insert key value d).map Prod.fst ↔ other = key ∨ other ∈ d.map Prod.fst := by
  fun_induction insert key value d with
  | case1 => simp
  | case2 => simp
  | case3 => simp
  | case4 k v rest hne hlt ih =>
    rw [List.map_cons, List.mem_cons, ih, List.map_cons, List.mem_cons, or_left_comm]

theorem Ascending.insert (h : d.Ascending) : (insert key value d).Ascending := by
  unfold Ascending at h ⊢
  fun_induction Dictionary.insert key value d with
  | case1 => simp
  | case2 => exact h
  | case3 k v rest hne hlt =>
    refine List.pairwise_cons.mpr ⟨List.forall_mem_cons.mpr ⟨hlt, fun later hlater => ?_⟩, h⟩
    exact hlt.trans ((List.pairwise_cons.mp h).1 later hlater)
  | case4 k v rest hne hlt ih =>
    obtain ⟨hfirst, hrest⟩ := List.pairwise_cons.mp h
    refine List.pairwise_cons.mpr ⟨fun later hlater => ?_, ih hrest⟩
    rcases mem_keys_insert.mp hlater with rfl | hlater
    · exact (lt_or_gt_of_ne hne).resolve_left hlt
    · exact hfirst later hlater

end Dictionary

namespace Training.Entry

variable {node : Node} {key : String}

-- Where the second name leads for a window of two axes.
example : (ofNode (.initial ⟨"a"⟩ .maxPool2d)).param? "poolStrideW" = some (.count 1) := by
  decide +kernel

end Training.Entry

end NetEditor
