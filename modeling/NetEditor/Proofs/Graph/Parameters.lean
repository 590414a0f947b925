-- The law of parameters: whatever numbers and texts commands bring, what a node holds is legal, and
-- what it has once it keeps. Only a new transposed convolution has channels left open.
import NetEditor.Proofs.Graph.History

namespace NetEditor

namespace Node

/-- The parameter of the node is legal, or open since none of these turns has set it. -/
def LawfulAt (node : Node) (turns : List Graph.Turn) (param : Layer.Param) : Prop :=
  (∃ v, node.param? param.name = some v ∧ param.constraint.Admits v) ∨
    (node.param? param.name = none ∧ node.kind.LeavesOpen param.name ∧
      ∀ t ∈ turns, ¬ t.Sets node.id param.name)

def Lawful (node : Node) (turns : List Graph.Turn) : Prop :=
  ∀ param ∈ node.kind.schema, node.LawfulAt turns param

end Node

namespace Graph

variable {g : Graph} {serial first : Nat} {turns : List Turn} {t : Turn} {node old : Node}

/-- A new node has legal values, and what it leaves open has not been set by anyone. -/
theorem lawful_initial {id : NodeId} {kind : Layer.Kind}
    (hunset : ∀ t ∈ turns, ∀ name, ¬ t.Sets id name) : (Node.initial id kind).Lawful turns := by
  intro param hp
  have hget : (Node.initial id kind).param? param.name = param.initial :=
    Layer.Record.get?_initial hp
  rw [Node.LawfulAt, hget]
  rcases Layer.initial_admitted kind param hp with hlegal | ⟨hnone, hopen⟩
  · exact Or.inl hlegal
  · exact Or.inr ⟨hnone, hopen, fun t ht => hunset t ht param.name⟩

theorem lawfulAt_append {param : Layer.Param} (h : old.LawfulAt turns param)
    (hid : node.id = old.id) (hkind : node.kind = old.kind)
    (hget : node.param? param.name = old.param? param.name) (hs : ¬ t.Sets node.id param.name) :
    node.LawfulAt (turns ++ [t]) param := by
  rw [Node.LawfulAt, hget, hkind, hid, List.forall_mem_append, List.forall_mem_singleton]
  rcases h with hlegal | ⟨hnone, hopen, hunset⟩
  · exact Or.inl hlegal
  · exact Or.inr ⟨hnone, hopen, hunset, hid ▸ hs⟩

theorem lawful_kept (h : old.Lawful turns) (hid : node.id = old.id) (hr : node.record = old.record)
    (hs : ∀ name, ¬ t.Sets node.id name) : node.Lawful (turns ++ [t]) := by
  intro param hp
  have hkind : node.kind = old.kind := congrArg Layer.Record.kind hr
  have hget : node.param? param.name = old.param? param.name := by
    rw [Node.param?, hr, ← Node.param?]
  exact lawfulAt_append (h param (hkind ▸ hp)) hid hkind hget (hs param.name)

/-- A turn that sets a parameter of the node makes it legal, and leaves the others. -/
theorem lawful_set {name : String} {value : Double} (h : old.Lawful turns)
    (hid : node.id = old.id) (hs : t.Sets node.id name)
    (hset : old.record.set name value = .ok node.record) : node.Lawful (turns ++ [t]) := by
  intro param hp
  have hkind : node.kind = old.kind := Layer.Record.kind_set hset
  rw [hkind] at hp
  by_cases hname : param.name = name
  · obtain ⟨found, v, hfound, hcheck, hv⟩ := Layer.Record.get?_set_self hset
    rw [← hname] at hfound hv
    have hsame : found = param :=
      Option.some.inj (hfound.symm.trans (Layer.Kind.param?_of_mem hp))
    exact Or.inl ⟨v, hv, hsame ▸ Layer.Constraint.admits_of_check hcheck⟩
  · exact lawfulAt_append (h param hp) hid hkind (Layer.Record.get?_set_of_ne hset hname)
      fun hs' => hname (hs'.unique hs).2

theorem lawful_of_history (h : History .empty first turns g serial) :
    ∀ node ∈ g.nodes, node.Lawful turns := by
  induction h with
  | nil => simp [empty]
  | elsewhere _ _ ih => exact ih
  | @snoc turns g serial c hg ih =>
    intro node hn
    cases Turn.origin (ran_turn g serial c) hg.sound hn with
    | made kind hc hnode =>
      subst hnode
      apply lawful_initial
      rw [List.forall_mem_append, List.forall_mem_singleton]
      have hpast := fun name => hg.not_sets_next kind name (Nat.le_refl serial)
      refine ⟨fun t ht name => hpast name t ht, fun name hs => ?_⟩
      have hparam := hs.1
      rw [hc] at hparam
      simp [Command.parameter?] at hparam
    | kept old ho hid hr hs => exact lawful_kept (ih old ho) hid hr hs
    | set old name value ho hid hs hset => exact lawful_set (ih old ho) hid hs hset

/-! ## The laws -/

/-- After any commands every parameter is legal, or is a channel count of a transposed convolution
that no turn has set. Later on no node changes its kind, and no parameter is emptied. -/
theorem every_stored_parameter_is_legal (first : Nat) (turns : List Turn) (g : Graph) (serial : Nat)
    (h : History .empty first turns g serial) :
    (∀ node ∈ g.nodes, node.Lawful turns) ∧
      ∀ (more : List Turn) (later : Graph) (serial' : Nat), History g serial more later serial' →
        ∀ old ∈ g.nodes, ∀ node ∈ later.nodes, node.id = old.id → node.Continues old :=
  ⟨lawful_of_history h, fun _ _ _ hmore => hmore.continues (h.reachable (.empty first))⟩

/-- A new transposed convolution and a layer that drops a third of its inputs. -/
def mixedLayers : List Command :=
  [.addNode .convTranspose1d, .addNode .dropout, .patchText ⟨"dropout_2"⟩ "p" " 0.3333333333 "]

/-- A channel count for the convolution, and a chance above one that is not taken. -/
def mixedPatches : List Command :=
  [.patch ⟨"convtranspose1d_1"⟩ "inChannels" (.ofWhole .double false 8),
    .patch ⟨"dropout_2"⟩ "p" (.ofRatio .double false 4 3)]

theorem mixed_layers_stay_legal :
    let now := run .empty 0 mixedLayers
    let later := now.1.run now.2 mixedPatches
    (∀ node ∈ now.1.nodes, node.Lawful (play .empty 0 mixedLayers)) ∧
      (∀ old ∈ now.1.nodes, ∀ node ∈ later.1.nodes, node.id = old.id → node.Continues old) ∧
      now.1.nodes.map (·.param? "inChannels") = [none, none] ∧
      later.1.nodes.map (·.param? "inChannels") = [some (.count 8), none] ∧
      later.1.nodes.map (·.param? "p") = [none, some (.real (.ofRatio .single false 1 3))] := by
  intro now later
  have h : History .empty 0 (play .empty 0 mixedLayers) now.1 now.2 :=
    History.nil.play mixedLayers
  obtain ⟨hlegal, hcont⟩ := every_stored_parameter_is_legal 0 _ _ _ h
  have hmore : History now.1 now.2 (now.1.play now.2 mixedPatches) later.1 later.2 :=
    History.nil.play mixedPatches
  exact ⟨hlegal, hcont _ _ _ hmore, by decide +kernel, by decide +kernel, by decide +kernel⟩

end Graph

end NetEditor
