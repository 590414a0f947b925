-- The law of order. Edits of different nodes, or of different parts of one node, may be made in
-- either order: no edit is lost to the other, and each is told what it would be told without it.
import NetEditor.Proofs.Graph.Frame
import NetEditor.Proofs.Graph.Hints

namespace NetEditor

/-- The outcome without the hints that come with it. They tell how the neighbours are at the moment,
and nobody acts on them. -/
def Outcome.unhinted : Outcome → Outcome
  | patched (.applied _) => patched (.applied [])
  | outcome => outcome

namespace Graph

/-! ## Changes of one node -/

/-- What a patch or a move asks of its node: a number for a parameter, a text for one that has no
number in it, or a place. -/
inductive Change
  | setting (name : String) (value : Double)
  | untyped (name raw : String)
  | place (position : Position)

namespace Change

/-- The parameter that is to be changed, or none for the place. -/
def slot : Change → Option String
  | setting name _ | untyped name _ => some name
  | place _ => none

/-- What is told of the change, without hints, and the node after it. -/
def on : Change → Node → Outcome × Node
  | setting name value, node =>
    let (fault?, record) := node.record.attempt name value
    (.patched ((fault?.map .rejected).getD (.applied [])), { node with record := record })
  | untyped name raw, node => (.patched (.rejected (.notNumeric name raw)), node)
  | place position, node => (.nodeMoved, { node with position := position })

variable (change : Change)

theorem on_id (node : Node) : (change.on node).2.id = node.id := by
  cases change <;> rfl

theorem on_kind (node : Node) : (change.on node).2.kind = node.kind := by
  cases change with
  | setting name value => exact node.record.kind_attempt name value
  | _ => rfl

theorem on_told {a b : Node} (h : a.kind = b.kind) : (change.on a).1 = (change.on b).1 := by
  cases change with
  | setting name value => simp only [on, Layer.Record.attempt_fault_eq h]
  | _ => rfl

/-- Changes of different parts of a node are both kept. -/
theorem on_on {change change' : Change} (hne : change.slot ≠ change'.slot) (node : Node) :
    (change'.on (change.on node).2).2 = (change.on (change'.on node).2).2 := by
  cases change with
  | setting name value =>
    cases change' with
    | setting other value' =>
      have hname : name ≠ other := fun heq => hne (congrArg some heq)
      simp only [on, node.record.attempt_attempt hname value value']
    | _ => rfl
  | untyped => rfl
  | place position =>
    cases change' with
    | place => exact absurd rfl hne
    | _ => rfl

end Change

variable (g : Graph) (serial : Nat)

def told (id : NodeId) (change : Change) : Outcome :=
  match g.node? id with
  | none => .failed (.nodeMissing id)
  | some node => (change.on node).1

def amended (id : NodeId) (change : Change) : Graph where
  nodes := updateNode id (fun node => (change.on node).2) g.nodes
  edges := g.edges
  revision := g.revision + if (g.told id change).isSuccess then 1 else 0

/-! ## Commands as changes -/

variable {g} {id : NodeId} {change : Change} {node : Node} {outcome : Outcome}

/-- Where the node, if it is there, stays as it is and no success is told, so does the graph. -/
theorem told_of_kept (htold : g.told id change = outcome) (hrefused : outcome.isSuccess = false)
    (hkept : ∀ node, g.node? id = some node → (change.on node).2 = node) :
    outcome = g.told id change ∧ g = g.amended id change := by
  have hnodes : updateNode id (fun node => (change.on node).2) g.nodes = g.nodes :=
    updateNode_eq_self hkept
  simp only [amended, hnodes, htold, hrefused]
  exact ⟨trivial, rfl⟩

theorem told_of_missing (h : g.node? id = none) :
    .failed (.nodeMissing id) = g.told id change ∧ g = g.amended id change :=
  told_of_kept (by simp only [told, h]) rfl (by simp [h])

theorem told_of_refused (h : g.node? id = some node) (hon : change.on node = (outcome, node))
    (hrefused : outcome.isSuccess = false) :
    outcome = g.told id change ∧ g = g.amended id change :=
  told_of_kept (by simp only [told, h, hon]) hrefused (by simp [h, hon])

/-- Where a success is told, the change is an edit. -/
theorem told_of_taken {f : Node → Node} (h : g.node? id = some node)
    (hon : change.on node = (outcome, f node)) (htaken : outcome.isSuccess = true) :
    outcome = g.told id change ∧ g.withChange id f = g.amended id change := by
  have htold : g.told id change = outcome := by simp only [told, h, hon]
  have hnodes : updateNode id (fun node => (change.on node).2) g.nodes =
      updateNode id f g.nodes := by
    refine updateNode_congr fun found hfound => ?_
    obtain rfl := Option.some.inj (h.symm.trans hfound)
    exact congrArg Prod.snd hon
  simp only [amended, hnodes, htold, htaken]
  exact ⟨trivial, rfl⟩

/-- On any graph, the command comes to a change of a node: what it tells, but for hints, and the
graph that it leaves are those of the change. -/
def Asks (c : Command) (id : NodeId) (change : Change) : Prop :=
  ∀ (g : Graph) (serial : Nat), (g.apply serial c).1.unhinted = g.told id change ∧
    (g.apply serial c).2 = g.amended id change

theorem asks_of_setting {c : Command} {name : String} {value : Double}
    (hc : c.setting? = some (id, name, value)) : Asks c id (.setting name value) := by
  intro g serial
  rw [apply_of_setting hc, patch]
  cases hn : g.node? id with
  | none => exact told_of_missing hn
  | some node =>
    simp only
    cases hr : node.record.set name value with
    | error fault =>
      have hon : (Change.setting name value).on node = (.patched (.rejected fault), node) := by
        simp [Change.on, Layer.Record.attempt_of_error hr]
      exact told_of_refused hn hon rfl
    | ok record =>
      have hon : (Change.setting name value).on node =
          (.patched (.applied []), { node with record := record }) := by
        simp [Change.on, Layer.Record.attempt_of_ok hr]
      exact told_of_taken hn hon rfl

theorem asks_of_untyped {name raw : String} (h : typedNumber? raw = none) :
    Asks (.patchText id name raw) id (.untyped name raw) := by
  intro g serial
  simp only [apply, patchText, h]
  cases hn : g.node? id with
  | none => exact told_of_missing hn
  | some node => exact told_of_refused hn rfl rfl

theorem asks_of_place (id : NodeId) (position : Position) :
    Asks (.moveNode id position) id (.place position) := by
  intro g serial
  simp only [apply, moveNode]
  cases hn : g.node? id with
  | none => exact told_of_missing hn
  | some node => exact told_of_taken hn rfl rfl

/-! ## Two changes -/

/-- A change has no influence on what is told of another one, even of the same node. -/
theorem told_amended (id other : NodeId) (change change' : Change) :
    (g.amended id change).told other change' = g.told other change' := by
  by_cases hne : other = id
  · subst hne
    cases hn : g.node? other with
    | none => rw [← (told_of_missing hn).2]
    | some node =>
      have hchanged : (g.amended other change).node? other = some (change.on node).2 :=
        find?_updateNode_self hn (change.on_id node)
      simp only [told, hchanged, hn]
      exact change'.on_told (change.on_kind node)
  · have hkept : (g.amended id change).node? other = g.node? other :=
      find?_updateNode_of_ne hne g.nodes change.on_id
    simp only [told, hkept]

/-- Changes of different nodes, or of different parts of one node, may be made in either order. -/
theorem amended_amended {a b : NodeId} {change change' : Change}
    (hne : (a, change.slot) ≠ (b, change'.slot)) :
    (g.amended a change).amended b change' = (g.amended b change').amended a change := by
  have hslot : a = b → ∀ node,
      (change'.on (change.on node).2).2 = (change.on (change'.on node).2).2 :=
    fun hab => Change.on_on fun hslot => hne (by rw [hab, hslot])
  refine Graph.mk.injEq .. |>.mpr
    ⟨updateNode_comm change.on_id change'.on_id hslot g.nodes, rfl, ?_⟩
  rw [told_amended, told_amended]
  exact Nat.add_right_comm _ _ _

/-! ## Two removals -/

theorem node?_withoutNode_of_ne {id other : NodeId} (hne : other ≠ id) :
    (g.withoutNode id).node? other = g.node? other := by
  unfold node? withoutNode commit
  rw [← List.head?_filter, filter_eraseP, List.head?_filter]
  intro node _ hid
  rw [decide_eq_true_eq] at hid
  simpa [hid] using hne.symm

theorem withoutNode_withoutNode {a b : NodeId} (hne : a ≠ b) :
    (g.withoutNode a).withoutNode b = (g.withoutNode b).withoutNode a := by
  have hnodes : ∀ node ∈ g.nodes,
      ¬ decide (node.id = a) = true ∨ ¬ decide (node.id = b) = true := by
    intro node _
    by_cases ha : node.id = a <;> simp [ha, hne]
  simp only [withoutNode, commit, List.eraseP_comm hnodes,
    List.filter_comm (fun edge : Edge => !edge.touches b)]

theorem apply_removeNode (g : Graph) (serial : Nat) (id : NodeId) :
    g.apply serial (.removeNode id) = match g.node? id with
      | none => (.failed (.nodeMissing id), g)
      | some node => (.nodeRemoved node, g.withoutNode id) := by
  simp only [apply, removeNode]
  cases g.node? id <;> rfl

/-- A removal has no influence on what is told of another one. -/
theorem told_removeNode {id other : NodeId} (hne : other ≠ id) (serial : Nat) :
    ((g.apply serial (.removeNode id)).2.apply serial (.removeNode other)).1 =
      (g.apply serial (.removeNode other)).1 := by
  cases hn : g.node? id <;>
    simp only [apply_removeNode, hn, node?_withoutNode_of_ne hne]
  cases g.node? other <;> rfl

theorem removeNode_removeNode {a b : NodeId} (hne : a ≠ b) (serial : Nat) :
    ((g.apply serial (.removeNode a)).2.apply serial (.removeNode b)).2 =
      ((g.apply serial (.removeNode b)).2.apply serial (.removeNode a)).2 := by
  cases ha : g.node? a <;> cases hb : g.node? b <;>
    simp only [apply_removeNode, ha, hb, node?_withoutNode_of_ne hne,
      node?_withoutNode_of_ne hne.symm, withoutNode_withoutNode hne]

end Graph

/-! ## Independent edits -/

/-- The node that a command patches or moves, and the parameter that it patches. -/
def Command.part? : Command → Option (NodeId × Option String)
  | patch id name _ | patchText id name _ => some (id, some name)
  | moveNode id _ => some (id, none)
  | addNode _ | removeNode _ | connect _ _ | disconnect _ => none

namespace Graph

/-- Two patches or moves that do not go to the same part of the same node, or removals of two
nodes. -/
inductive Independent : Command → Command → Prop
  | edits {c d : Command} {p q : NodeId × Option String} (hc : c.part? = some p)
      (hd : d.part? = some q) (hne : p ≠ q) : Independent c d
  | removals {a b : NodeId} (hne : a ≠ b) : Independent (.removeNode a) (.removeNode b)

/-- A patch or a move asks for a change of its part, and adds no node. -/
theorem exists_change {c : Command} {part : NodeId × Option String} (hc : c.part? = some part) :
    ∃ change, Asks c part.1 change ∧ part = (part.1, change.slot) ∧
      ∀ serial, c.serialAfter serial = serial := by
  cases c with
  | patch id name value =>
    cases hc
    exact ⟨.setting name value, asks_of_setting rfl, rfl, fun _ => rfl⟩
  | patchText id name raw =>
    cases hc
    cases hraw : typedNumber? raw with
    | none => exact ⟨.untyped name raw, asks_of_untyped hraw, rfl, fun _ => rfl⟩
    | some value =>
      have hsetting : (Command.patchText id name raw).setting? = some (id, name, value) := by
        simp [Command.setting?, hraw]
      exact ⟨.setting name value, asks_of_setting hsetting, rfl, fun _ => rfl⟩
  | moveNode id position =>
    cases hc
    exact ⟨.place position, asks_of_place id position, rfl, fun _ => rfl⟩
  | _ => cases hc

/-! ## The law -/

/-- Two commands leave the same graph in either order, and each is told the same, but for hints,
whether it goes first or second. -/
structure Commute (g : Graph) (serial : Nat) (c d : Command) : Prop where
  graphs : g.run serial [c, d] = g.run serial [d, c]
  first : ((g.apply serial d).2.apply (d.serialAfter serial) c).1.unhinted =
    (g.apply serial c).1.unhinted
  second : ((g.apply serial c).2.apply (c.serialAfter serial) d).1.unhinted =
    (g.apply serial d).1.unhinted

/-- Independent edits commute, on any graph and whether they take effect or not. -/
theorem independent_edits_commute (g : Graph) (serial : Nat) (c d : Command)
    (h : Independent c d) : g.Commute serial c d := by
  cases h with
  | @edits _ _ p q hc hd hne =>
    obtain ⟨change, hasks, hp, hserial⟩ := exists_change hc
    obtain ⟨change', hasks', hq, hserial'⟩ := exists_change hd
    rw [hp, hq] at hne
    refine ⟨?_, ?_, ?_⟩
    · simp only [run, List.foldl_cons, List.foldl_nil, hserial, hserial', (hasks _ _).2,
        (hasks' _ _).2, amended_amended hne]
    · rw [(hasks _ _).1, (hasks _ _).1, (hasks' _ _).2, told_amended]
    · rw [(hasks' _ _).1, (hasks' _ _).1, (hasks _ _).2, told_amended]
  | @removals a b hne =>
    refine ⟨?_, ?_, ?_⟩
    · simp only [run, List.foldl_cons, List.foldl_nil, Command.serialAfter,
        removeNode_removeNode hne]
    · exact congrArg Outcome.unhinted (told_removeNode hne serial)
    · exact congrArg Outcome.unhinted (told_removeNode hne.symm serial)

theorem a_layer_is_widened_at_both_ends :
    let c := Command.patchText ⟨"linear_1"⟩ "outFeatures" " 32 "
    let d := Command.patch ⟨"linear_1"⟩ "inFeatures" (.ofWhole .double false 8)
    Independent c d ∧ fannedOut.1.Commute fannedOut.2 c d ∧
      ((fannedOut.1.run fannedOut.2 [c, d]).1.node? ⟨"linear_1"⟩).map (fun node =>
        (node.param? "inFeatures", node.param? "outFeatures")) =
          some (some (.count 8), some (.count 32)) := by
  intro c d
  have h : Independent c d := .edits rfl rfl (by decide)
  exact ⟨h, independent_edits_commute fannedOut.1 fannedOut.2 c d h, by decide +kernel⟩

-- The hints do tell which layer was widened first: the other side of the edge fits by then, or not.
example :
    let c := Command.patch ⟨"linear_1"⟩ "outFeatures" (.ofWhole .double false 32)
    let d := Command.patch ⟨"linear_2"⟩ "inFeatures" (.ofWhole .double false 32)
    let first := fannedOut.1.apply fannedOut.2 c
    let second := (fannedOut.1.apply fannedOut.2 d).2.apply fannedOut.2 c
    first.1 ≠ second.1 ∧ first.1.unhinted = second.1.unhinted := by
  decide +kernel

end Graph

end NetEditor
