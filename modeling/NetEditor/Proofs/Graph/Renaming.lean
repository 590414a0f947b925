-- Graphs up to the names of their nodes. Two graphs that differ only in names answer alike to
-- commands that differ only in names, as long as the names correspond one to one.
import NetEditor.Proofs.Graph.Hints

namespace NetEditor

/-! ## Corresponding names -/

/-- Pairs of names, each the name that one node has in two worlds. -/
abbrev Pairing : Type := NodeId → NodeId → Prop

/-- Names are paired one to one, and all are such as the editor gives. -/
structure Pairing.OneToOne (R : Pairing) : Prop where
  eq_iff : ∀ {a a' b b'}, R a a' → R b b' → (a = b ↔ a' = b')
  numbered : ∀ {a a'}, R a a' → a.IsNumbered ∧ a'.IsNumbered

/-- Names of edges whose ends correspond. -/
def EdgeId.Renamed (R : Pairing) (a b : EdgeId) : Prop :=
  ∃ s s' t t', R s s' ∧ R t t' ∧ a = between s t ∧ b = between s' t'

structure Node.Renamed (R : Pairing) (a b : Node) : Prop where
  id : R a.id b.id
  record : a.record = b.record
  position : a.position = b.position

structure Edge.Renamed (R : Pairing) (a b : Edge) : Prop where
  source : R a.source b.source
  target : R a.target b.target
  id : a.id = EdgeId.between a.source a.target
  id' : b.id = EdgeId.between b.source b.target

structure Graph.Renamed (R : Pairing) (g g' : Graph) : Prop where
  nodes : List.Forall₂ (Node.Renamed R) g.nodes g'.nodes
  edges : List.Forall₂ (Edge.Renamed R) g.edges g'.edges
  revision : g.revision = g'.revision

structure Graph.Hint.Renamed (R : Pairing) (a b : Hint) : Prop where
  target : R a.target b.target
  kind : a.kind = b.kind
  incoming : a.incoming = b.incoming
  declared : a.declared = b.declared
  compatible : a.compatible = b.compatible

/-- Commands of one form on corresponding nodes and edges. -/
inductive Command.Renamed (R : Pairing) : Command → Command → Prop
  | addNode (kind : Layer.Kind) : Renamed R (.addNode kind) (.addNode kind)
  | removeNode {id id' : NodeId} (h : R id id') : Renamed R (.removeNode id) (.removeNode id')
  | patch {id id' : NodeId} (name : String) (value : Double) (h : R id id') :
      Renamed R (.patch id name value) (.patch id' name value)
  | patchText {id id' : NodeId} (name raw : String) (h : R id id') :
      Renamed R (.patchText id name raw) (.patchText id' name raw)
  | moveNode {id id' : NodeId} (position : Position) (h : R id id') :
      Renamed R (.moveNode id position) (.moveNode id' position)
  | connect {s s' t t' : NodeId} (hs : R s s') (ht : R t t') :
      Renamed R (.connect s t) (.connect s' t')
  | disconnect {id id' : EdgeId} (h : EdgeId.Renamed R id id') :
      Renamed R (.disconnect id) (.disconnect id')

inductive Graph.Failure.Renamed (R : Pairing) : Graph.Failure → Graph.Failure → Prop
  | nodeMissing {id id' : NodeId} (h : R id id') : Renamed R (.nodeMissing id) (.nodeMissing id')
  | edgeMissing {id id' : EdgeId} (h : EdgeId.Renamed R id id') :
      Renamed R (.edgeMissing id) (.edgeMissing id')
  | connectionRefused (source target : Layer.Kind) (reason : Refusal) :
      Renamed R (.connectionRefused source target reason) (.connectionRefused source target reason)

inductive Graph.Patch.Renamed (R : Pairing) : Graph.Patch → Graph.Patch → Prop
  | applied {hints hints' : List Graph.Hint}
      (h : List.Forall₂ (Graph.Hint.Renamed R) hints hints') :
      Renamed R (.applied hints) (.applied hints')
  | rejected (fault : Layer.Fault) : Renamed R (.rejected fault) (.rejected fault)

inductive Outcome.Renamed (R : Pairing) : Outcome → Outcome → Prop
  | nodeAdded {a b : Node} (h : a.Renamed R b) : Renamed R (.nodeAdded a) (.nodeAdded b)
  | nodeRemoved {a b : Node} (h : a.Renamed R b) : Renamed R (.nodeRemoved a) (.nodeRemoved b)
  | patched {a b : Graph.Patch} (h : a.Renamed R b) : Renamed R (.patched a) (.patched b)
  | nodeMoved : Renamed R .nodeMoved .nodeMoved
  | connected {id id' : EdgeId} (h : EdgeId.Renamed R id id') :
      Renamed R (.connected id) (.connected id')
  | disconnected {a b : Edge} (h : a.Renamed R b) : Renamed R (.disconnected a) (.disconnected b)
  | failed {a b : Graph.Failure} (h : a.Renamed R b) : Renamed R (.failed a) (.failed b)

variable {R : Pairing}

theorem Node.Renamed.kind {a b : Node} (h : a.Renamed R b) : a.kind = b.kind :=
  congrArg Layer.Record.kind h.record

theorem Node.Renamed.outputDim {a b : Node} (h : a.Renamed R b) : a.outputDim = b.outputDim := by
  rw [Node.outputDim, Node.outputDim, h.record, h.kind]

theorem Node.Renamed.inputDim {a b : Node} (h : a.Renamed R b) : a.inputDim = b.inputDim := by
  rw [Node.inputDim, Node.inputDim, h.record, h.kind]

/-- A connection between corresponding nodes is judged alike. -/
theorem Node.Renamed.refusal? {s s' t t' : Node} (hs : s.Renamed R s') (ht : t.Renamed R t') :
    s.refusal? t = s'.refusal? t' :=
  refusal?_eq hs.kind ht.kind hs.outputDim ht.inputDim

theorem Edge.Renamed.edgeId {a b : Edge} (h : a.Renamed R b) : EdgeId.Renamed R a.id b.id :=
  ⟨_, _, _, _, h.source, h.target, h.id, h.id'⟩

theorem Edge.renamed_between {s s' t t' : NodeId} (hs : R s s') (ht : R t t') :
    (Edge.between s t).Renamed R (Edge.between s' t') := ⟨hs, ht, rfl, rfl⟩

/-- Names of edges correspond one to one as well, for they tell the ends. -/
theorem Pairing.OneToOne.edgeId_eq_iff (hR : R.OneToOne) {a a' b b' : EdgeId}
    (ha : EdgeId.Renamed R a a') (hb : EdgeId.Renamed R b b') : a = b ↔ a' = b' := by
  obtain ⟨s, s', t, t', hs, ht, rfl, rfl⟩ := ha
  obtain ⟨u, u', v, v', hu, hv, rfl, rfl⟩ := hb
  rw [EdgeId.between_inj (hR.numbered hs).1 (hR.numbered ht).1,
    EdgeId.between_inj (hR.numbered hs).2 (hR.numbered ht).2, hR.eq_iff hs hu, hR.eq_iff ht hv]

/-! ## Lists in correspondence -/

section

variable {α β : Type} {S : α → β → Prop} {items : List α} {items' : List β} {p : α → Bool}
  {q : β → Bool}

/-- What is sought is missing on both sides, or is there on both. -/
theorem option_rel_cases {a : Option α} {b : Option β} (h : Option.Rel S a b) :
    (a = none ∧ b = none) ∨ ∃ x y, a = some x ∧ b = some y ∧ S x y := by
  cases h with
  | none => exact Or.inl ⟨rfl, rfl⟩
  | some hxy => exact Or.inr ⟨_, _, rfl, rfl, hxy⟩

theorem find?_renamed (h : List.Forall₂ S items items') (hpq : ∀ a b, S a b → p a = q b) :
    Option.Rel S (items.find? p) (items'.find? q) := by
  induction h with
  | nil => exact .none
  | @cons a b rest rest' hab _ ih =>
    have heq := hpq a b hab
    cases ha : p a with
    | true => simpa [ha, ← heq] using hab
    | false => simpa [ha, ← heq] using ih

theorem eraseP_renamed (h : List.Forall₂ S items items') (hpq : ∀ a b, S a b → p a = q b) :
    List.Forall₂ S (items.eraseP p) (items'.eraseP q) := by
  induction h with
  | nil => exact .nil
  | @cons a b rest rest' hab hrest ih =>
    have heq := hpq a b hab
    cases ha : p a with
    | true => simpa [List.eraseP_cons, ha, ← heq] using hrest
    | false => simpa [List.eraseP_cons, ha, ← heq] using ⟨hab, ih⟩

theorem filter_renamed (h : List.Forall₂ S items items') (hpq : ∀ a b, S a b → p a = q b) :
    List.Forall₂ S (items.filter p) (items'.filter q) :=
  List.rel_filter (fun a b hab => iff_of_eq (congrArg (· = true) (hpq a b hab))) h

end

/-! ## Graphs in correspondence -/

namespace Graph.Renamed

variable {g g' : Graph} {id id' : NodeId}

theorem node? (hg : g.Renamed R g') (hR : R.OneToOne) (hid : R id id') :
    Option.Rel (Node.Renamed R) (g.node? id) (g'.node? id') :=
  find?_renamed hg.nodes fun _ _ hab => decide_eq_decide.mpr (hR.eq_iff hab.id hid)

theorem edge? (hg : g.Renamed R g') (hR : R.OneToOne) {id id' : EdgeId}
    (hid : EdgeId.Renamed R id id') :
    Option.Rel (Edge.Renamed R) (g.edge? id) (g'.edge? id') :=
  find?_renamed hg.edges fun _ _ hab => decide_eq_decide.mpr (hR.edgeId_eq_iff hab.edgeId hid)

theorem edgeBetween? (hg : g.Renamed R g') (hR : R.OneToOne) {s s' t t' : NodeId} (hs : R s s')
    (ht : R t t') :
    Option.Rel (Edge.Renamed R) (g.edgeBetween? s t) (g'.edgeBetween? s' t') := by
  refine find?_renamed hg.edges fun a b hab => ?_
  rw [decide_eq_decide.mpr (hR.eq_iff hab.source hs),
    decide_eq_decide.mpr (hR.eq_iff hab.target ht)]

theorem touches (hR : R.OneToOne) {a b : Edge} (hab : a.Renamed R b) (hid : R id id') :
    a.touches id = b.touches id' := by
  rw [Edge.touches, Edge.touches, decide_eq_decide.mpr (hR.eq_iff hab.source hid),
    decide_eq_decide.mpr (hR.eq_iff hab.target hid)]

theorem commit (hg : g.Renamed R g') {nodes nodes' : List Node} {edges edges' : List Edge}
    (hn : List.Forall₂ (Node.Renamed R) nodes nodes')
    (he : List.Forall₂ (Edge.Renamed R) edges edges') :
    (g.commit nodes edges).Renamed R (g'.commit nodes' edges') :=
  ⟨hn, he, congrArg (· + 1) hg.revision⟩

theorem updateNode (hR : R.OneToOne) (hid : R id id') {change change' : Node → Node}
    (hc : ∀ a b, a.Renamed R b → (change a).Renamed R (change' b)) {nodes nodes' : List Node}
    (hn : List.Forall₂ (Node.Renamed R) nodes nodes') :
    List.Forall₂ (Node.Renamed R) (updateNode id change nodes)
      (Graph.updateNode id' change' nodes') := by
  induction hn with
  | nil => exact .nil
  | @cons a b rest rest' hab hrest ih =>
    have hiff := hR.eq_iff hab.id hid
    unfold Graph.updateNode
    by_cases ha : a.id = id
    · rw [if_pos ha, if_pos (hiff.mp ha)]
      exact .cons (hc a b hab) hrest
    · rw [if_neg ha, if_neg fun hb => ha (hiff.mpr hb)]
      exact .cons hab ih

theorem withChange (hg : g.Renamed R g') (hR : R.OneToOne) (hid : R id id')
    {change change' : Node → Node} (hc : ∀ a b, a.Renamed R b → (change a).Renamed R (change' b)) :
    (g.withChange id change).Renamed R (g'.withChange id' change') :=
  hg.commit (updateNode hR hid hc hg.nodes) hg.edges

theorem successors (hg : g.Renamed R g') (hR : R.OneToOne) (hid : R id id') :
    List.Forall₂ (Node.Renamed R) (g.successors id) (g'.successors id') := by
  have hout : List.Forall₂ (Edge.Renamed R) (g.edges.filter fun edge => edge.source = id)
      (g'.edges.filter fun edge => edge.source = id') :=
    filter_renamed hg.edges fun _ _ hab => decide_eq_decide.mpr (hR.eq_iff hab.source hid)
  refine List.rel_filterMap (fun a b hab => ?_) hout
  exact hg.node? hR hab.target

theorem hints (hg : g.Renamed R g') (hR : R.OneToOne) (hid : R id id') :
    List.Forall₂ (Hint.Renamed R) (g.hints id) (g'.hints id') := by
  unfold Graph.hints
  rcases option_rel_cases (hg.node? hR hid) with ⟨hn, hn'⟩ | ⟨s, s', hn, hn', hs⟩
  · rw [hn, hn']
    exact .nil
  · rw [hn, hn']
    refine List.rel_map (fun t t' ht => ?_) (hg.successors hR hid)
    exact ⟨ht.id, ht.kind, hs.outputDim, ht.inputDim, congrArg Option.isNone (hs.refusal? ht)⟩

end Graph.Renamed

/-! ## Edits in correspondence -/

namespace Graph

/-- Two edits end alike: with corresponding results and graphs, or with corresponding failures. -/
inductive EndsAlike (R : Pairing) {α : Type} (T : α → α → Prop) :
    Except Failure (α × Graph) → Except Failure (α × Graph) → Prop
  | ok {a b : α} {g g' : Graph} (h : T a b) (hg : g.Renamed R g') :
      EndsAlike R T (.ok (a, g)) (.ok (b, g'))
  | error {a b : Failure} (h : a.Renamed R b) : EndsAlike R T (.error a) (.error b)

variable {g g' : Graph} {id id' : NodeId}

theorem EndsAlike.settle {α : Type} {T : α → α → Prop} {r r' : Except Failure (α × Graph)}
    (h : EndsAlike R T r r') (hg : g.Renamed R g') {done : α → Outcome}
    (hdone : ∀ a b, T a b → (done a).Renamed R (done b)) :
    (g.settle done r).1.Renamed R (g'.settle done r').1 ∧
      (g.settle done r).2.Renamed R (g'.settle done r').2 := by
  cases h with
  | ok hab hnext => exact ⟨hdone _ _ hab, hnext⟩
  | error hab => exact ⟨.failed hab, hg⟩

theorem addNode_renamed (hg : g.Renamed R g') {serial serial' : Nat} {kind : Layer.Kind}
    (hnew : R (NodeId.numbered kind (serial + 1)) (NodeId.numbered kind (serial' + 1))) :
    (g.addNode serial kind).1.Renamed R (g'.addNode serial' kind).1 ∧
      (g.addNode serial kind).2.Renamed R (g'.addNode serial' kind).2 := by
  have hnode : (Node.initial (NodeId.numbered kind (serial + 1)) kind).Renamed R
      (Node.initial (NodeId.numbered kind (serial' + 1)) kind) := ⟨hnew, rfl, rfl⟩
  exact ⟨hnode, hg.commit (List.rel_append hg.nodes (.cons hnode .nil)) hg.edges⟩

theorem removeNode_renamed (hg : g.Renamed R g') (hR : R.OneToOne) (hid : R id id') :
    EndsAlike R (Node.Renamed R) (g.removeNode id) (g'.removeNode id') := by
  unfold removeNode
  rcases option_rel_cases (hg.node? hR hid) with ⟨hn, hn'⟩ | ⟨a, b, hn, hn', hab⟩
  · rw [hn, hn']
    exact .error (.nodeMissing hid)
  · rw [hn, hn']
    refine .ok hab (hg.commit (eraseP_renamed hg.nodes fun _ _ h => ?_)
      (filter_renamed hg.edges fun _ _ h => congrArg (! ·) (Renamed.touches hR h hid)))
    exact decide_eq_decide.mpr (hR.eq_iff h.id hid)

theorem moveNode_renamed (hg : g.Renamed R g') (hR : R.OneToOne) (hid : R id id')
    (position : Position) :
    EndsAlike R (fun _ _ => True) ((g.moveNode id position).map (Prod.mk ()))
      ((g'.moveNode id' position).map (Prod.mk ())) := by
  unfold moveNode
  rcases option_rel_cases (hg.node? hR hid) with ⟨hn, hn'⟩ | ⟨a, b, hn, hn', hab⟩
  · rw [hn, hn']
    exact .error (.nodeMissing hid)
  · rw [hn, hn']
    refine .ok trivial (hg.withChange hR hid ?_)
    exact fun _ _ h => ⟨h.id, h.record, rfl⟩

theorem patch_renamed (hg : g.Renamed R g') (hR : R.OneToOne) (hid : R id id') (name : String)
    (value : Double) :
    EndsAlike R (Patch.Renamed R) (g.patch id name value) (g'.patch id' name value) := by
  unfold patch
  rcases option_rel_cases (hg.node? hR hid) with ⟨hn, hn'⟩ | ⟨a, b, hn, hn', hab⟩
  · rw [hn, hn']
    exact .error (.nodeMissing hid)
  · rw [hn, hn']
    simp only
    rw [← hab.record, ← hab.kind]
    cases a.record.set name value with
    | error fault => exact .ok (.rejected fault) hg
    | ok record =>
      have hnext : (g.withRecord id record).Renamed R (g'.withRecord id' record) :=
        hg.withChange hR hid fun _ _ h => ⟨h.id, rfl, h.position⟩
      refine .ok (.applied ?_) hnext
      split
      · exact hnext.hints hR hid
      · exact .nil

theorem patchText_renamed (hg : g.Renamed R g') (hR : R.OneToOne) (hid : R id id')
    (name raw : String) :
    EndsAlike R (Patch.Renamed R) (g.patchText id name raw) (g'.patchText id' name raw) := by
  unfold patchText
  cases typedNumber? raw with
  | some value => exact patch_renamed hg hR hid name value
  | none =>
    rcases option_rel_cases (hg.node? hR hid) with ⟨hn, hn'⟩ | ⟨a, b, hn, hn', _⟩
    · rw [hn, hn']
      exact .error (.nodeMissing hid)
    · rw [hn, hn']
      exact .ok (.rejected _) hg

theorem connect_renamed (hg : g.Renamed R g') (hR : R.OneToOne) {s s' t t' : NodeId}
    (hs : R s s') (ht : R t t') :
    EndsAlike R (EdgeId.Renamed R) (g.connect s t) (g'.connect s' t') := by
  unfold connect
  rcases option_rel_cases (hg.node? hR hs) with ⟨hn, hn'⟩ | ⟨a, a', hn, hn', ha⟩
  · rw [hn, hn']
    exact .error (.nodeMissing hs)
  rcases option_rel_cases (hg.node? hR ht) with ⟨hm, hm'⟩ | ⟨b, b', hm, hm', hb⟩
  · rw [hn, hn', hm, hm']
    exact .error (.nodeMissing ht)
  rcases option_rel_cases (hg.edgeBetween? hR hs ht) with ⟨he, he'⟩ | ⟨e, e', he, he', hee⟩
  · rw [hn, hn', hm, hm']
    simp only [he, he', ← ha.refusal? hb, ← ha.kind, ← hb.kind]
    cases a.refusal? b with
    | some reason => exact .error (.connectionRefused _ _ reason)
    | none =>
      have hedge := Edge.renamed_between hs ht
      exact .ok hedge.edgeId (hg.commit hg.nodes (List.rel_append hg.edges (.cons hedge .nil)))
  · rw [hn, hn', hm, hm']
    simp only [he, he']
    exact .ok hee.edgeId hg

theorem disconnect_renamed (hg : g.Renamed R g') (hR : R.OneToOne) {id id' : EdgeId}
    (hid : EdgeId.Renamed R id id') :
    EndsAlike R (Edge.Renamed R) (g.disconnect id) (g'.disconnect id') := by
  unfold disconnect
  rcases option_rel_cases (hg.edge? hR hid) with ⟨he, he'⟩ | ⟨a, b, he, he', hab⟩
  · rw [he, he']
    exact .error (.edgeMissing hid)
  · rw [he, he']
    refine .ok hab (hg.commit hg.nodes (eraseP_renamed hg.edges fun _ _ h => ?_))
    exact decide_eq_decide.mpr (hR.edgeId_eq_iff h.edgeId hid)

/-- The commands add nodes under corresponding names, if they add any. -/
def NewRenamed (R : Pairing) (serial serial' : Nat) : Command → Prop
  | .addNode kind => R (NodeId.numbered kind (serial + 1)) (NodeId.numbered kind (serial' + 1))
  | _ => True

/-- Corresponding commands on corresponding graphs come to corresponding outcomes and leave
corresponding graphs. -/
theorem apply_renamed (hg : g.Renamed R g') (hR : R.OneToOne) {c c' : Command}
    (hc : c.Renamed R c') {serial serial' : Nat} (hnew : NewRenamed R serial serial' c) :
    (g.apply serial c).1.Renamed R (g'.apply serial' c').1 ∧
      (g.apply serial c).2.Renamed R (g'.apply serial' c').2 := by
  cases hc with
  | addNode kind =>
    obtain ⟨hnode, hnext⟩ := addNode_renamed hg hnew
    exact ⟨.nodeAdded hnode, hnext⟩
  | removeNode hid => exact (removeNode_renamed hg hR hid).settle hg fun _ _ => .nodeRemoved
  | patch name value hid => exact (patch_renamed hg hR hid name value).settle hg fun _ _ => .patched
  | patchText name raw hid =>
    -- Opened first, for else the two typed numbers are compared as well.
    unfold apply
    exact (patchText_renamed hg hR hid name raw).settle hg fun _ _ => .patched
  | moveNode position hid =>
    exact (moveNode_renamed hg hR hid position).settle hg fun _ _ _ => .nodeMoved
  | connect hs ht => exact (connect_renamed hg hR hs ht).settle hg fun _ _ => .connected
  | disconnect hid => exact (disconnect_renamed hg hR hid).settle hg fun _ _ => .disconnected

end Graph

end NetEditor
