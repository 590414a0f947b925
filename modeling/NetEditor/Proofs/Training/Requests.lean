-- The law of training requests. A legal schedule and samples of even shapes always make a request,
-- and what the service is sent is the graph itself, but for the places on the sheet.
import NetEditor.Proofs.Graph.Reachable
import NetEditor.Proofs.Training.Entries
import NetEditor.Training.Request

namespace NetEditor.Training

/-! ## What a request needs -/

/-- At least one epoch, and a finite rate above zero. -/
structure Schedule.Legal (s : Schedule) : Prop where
  epochs_pos : 1 ≤ s.epochs
  rate_finite : s.learningRate.isFinite = true
  rate_pos : (Binary.zero .double false).lt s.learningRate = true

theorem Schedule.fault?_eq_none_iff {s : Schedule} : s.fault? = none ↔ s.Legal := by
  unfold fault?
  constructor
  · intro h
    split at h
    · simp at h
    · rename_i hepochs
      simp only [ite_eq_left_iff, reduceCtorEq, imp_false, Decidable.not_not,
        Bool.and_eq_true] at h
      exact ⟨Nat.one_le_iff_ne_zero.mpr hepochs, h.1, h.2⟩
  · rintro ⟨hepochs, hfinite, hpos⟩
    simp [Nat.one_le_iff_ne_zero.mp hepochs, hfinite, hpos]

/-- All inputs have one shape and all outputs have one shape. -/
def EvenShapes (samples : List Sample) : Prop :=
  ∀ a ∈ samples, ∀ b ∈ samples, a.input.shape = b.input.shape ∧ a.output.shape = b.output.shape

theorem shapeFault?_eq_none_iff {input output : List Nat} {index : Nat} {samples : List Sample} :
    Batch.shapeFault? input output index samples = none ↔
      ∀ s ∈ samples, s.input.shape = input ∧ s.output.shape = output := by
  induction samples generalizing index with
  | nil => simp [Batch.shapeFault?]
  | cons s rest ih =>
    rw [List.forall_mem_cons, Batch.shapeFault?]
    by_cases hin : s.input.shape = input
    · by_cases hout : s.output.shape = output
      · simp [hin, hout, ih]
      · simp [hin, hout]
    · simp [hin]

/-- It is enough that all samples have the shapes of the first. -/
theorem unevenSample?_eq_none_iff {samples : List Sample} :
    Batch.unevenSample? samples = none ↔ EvenShapes samples := by
  cases samples with
  | nil => simp [Batch.unevenSample?, EvenShapes]
  | cons first rest =>
    rw [Batch.unevenSample?, shapeFault?_eq_none_iff]
    constructor
    · intro h
      have hall : ∀ s ∈ first :: rest,
          s.input.shape = first.input.shape ∧ s.output.shape = first.output.shape :=
        List.forall_mem_cons.mpr ⟨⟨rfl, rfl⟩, h⟩
      intro a ha b hb
      exact ⟨(hall a ha).1.trans (hall b hb).1.symm, (hall a ha).2.trans (hall b hb).2.symm⟩
    · exact fun h s hs => h s (List.mem_cons_of_mem _ hs) first List.mem_cons_self

namespace Request

def ofGraph (g : Graph) (samples : List Sample) (schedule : Schedule) : Request :=
  ⟨g.nodes.map Entry.ofNode, g.edges.map Link.ofEdge, schedule, samples⟩

/-- There is a request exactly if the schedule is legal and the shapes are even. -/
theorem build_eq_ok_iff {g : Graph} {samples : List Sample} {schedule : Schedule} {r : Request} :
    build g samples schedule = .ok r ↔
      schedule.Legal ∧ EvenShapes samples ∧ r = ofGraph g samples schedule := by
  rw [← Schedule.fault?_eq_none_iff, ← unevenSample?_eq_none_iff, build]
  cases schedule.fault? with
  | some fault => simp
  | none =>
    cases Batch.unevenSample? samples with
    | some fault => simp
    | none => simp [ofGraph, eq_comm]

/-! ## What a request says -/

/-- The entry tells the name, the kind and all values of a layer. -/
structure Describes (entry : Entry) (node : Node) : Prop where
  id : entry.id = node.id
  kind : entry.kind = node.kind
  family : entry.family = node.kind.family
  axes : entry.axes = node.kind.axes
  params : ∀ name ∈ Layer.paramNames, entry.param? name = node.param? name

theorem describes_ofNode (node : Node) : Describes (Entry.ofNode node) node :=
  ⟨rfl, rfl, rfl, rfl, fun _ h => Entry.param?_ofNode h⟩

structure Faithful (r : Request) (g : Graph) (samples : List Sample) (schedule : Schedule) :
    Prop where
  entries : List.Forall₂ Describes r.nodes g.nodes
  ids_distinct : (r.nodes.map Entry.id).Nodup
  links : List.Forall₂ (fun link edge => link.source = edge.source ∧ link.target = edge.target)
    r.edges g.edges
  links_distinct : r.edges.Nodup
  ends_listed : ∀ link ∈ r.edges,
    link.source ∈ r.nodes.map Entry.id ∧ link.target ∈ r.nodes.map Entry.id
  no_link_into_embedding : ∀ link ∈ r.edges, ∀ entry ∈ r.nodes, entry.id = link.target →
    entry.kind ≠ .embedding
  samples_kept : r.samples = samples
  schedule_kept : r.schedule = schedule

section

variable {g : Graph} {serial : Nat}

theorem ids_ofGraph (g : Graph) (samples : List Sample) (schedule : Schedule) :
    (ofGraph g samples schedule).nodes.map Entry.id = g.nodes.map Node.id := by
  simp only [ofGraph, List.map_map]
  rfl

theorem faithful_ofGraph (h : g.Sound serial) (samples : List Sample) (schedule : Schedule) :
    Faithful (ofGraph g samples schedule) g samples schedule where
  entries := by
    rw [ofGraph, List.forall₂_map_left_iff]
    exact List.forall₂_same.mpr fun node _ => describes_ofNode node
  ids_distinct := by
    rw [ids_ofGraph, ← Graph.roster_ids]
    exact h.ids_nodup
  links := by
    rw [ofGraph, List.forall₂_map_left_iff]
    exact List.forall₂_same.mpr fun _ _ => ⟨rfl, rfl⟩
  links_distinct := by
    refine h.pairs_nodup.of_map.map_on fun a ha b hb hlink => ?_
    obtain ⟨hs, ht⟩ := Link.mk.inj hlink
    exact List.inj_on_of_nodup_map h.pairs_nodup ha hb (Prod.ext hs ht)
  ends_listed := by
    rw [ids_ofGraph, ← Graph.roster_ids]
    intro link hl
    obtain ⟨edge, he, rfl⟩ := List.mem_map.mp hl
    exact h.ends_listed edge he
  no_link_into_embedding := by
    intro link hl entry hentry hid hkind
    obtain ⟨edge, he, rfl⟩ := List.mem_map.mp hl
    obtain ⟨node, hn, rfl⟩ := List.mem_map.mp hentry
    apply h.no_embedding edge he
    exact List.mem_map.mpr ⟨node, hn, Prod.ext hid hkind⟩
  samples_kept := rfl
  schedule_kept := rfl

/-- The names of edges need not be sent, for they follow from the ends. -/
theorem edges_of_links (h : g.Sound serial) :
    (g.edges.map Link.ofEdge).map (fun link => Edge.between link.source link.target) =
      g.edges := by
  have hedge : ∀ edge ∈ g.edges, Edge.between edge.source edge.target = edge := by
    intro edge he
    rw [Edge.between, ← h.edge_ids edge he]
  rw [List.map_map]
  exact (List.map_congr_left hedge).trans (List.map_id g.edges)

end

/-! ## What can be read off a request -/

/-- The same edges, and nodes of the same names whose values are related, at whatever places. -/
structure AlikeButPlaces (S : Layer.Record → Layer.Record → Prop) (g g' : Graph) : Prop where
  nodes : List.Forall₂ (fun a b => a.id = b.id ∧ S a.record b.record) g.nodes g'.nodes
  edges : g.edges = g'.edges

variable {g g' : Graph} {serial serial' : Nat}

/-- Entries and links that agree are of graphs that agree. -/
theorem alike_of_parts {R : Option Layer.Value → Option Layer.Value → Prop}
    {S : Layer.Record → Layer.Record → Prop}
    (hS : ∀ a b : Layer.Record, a.kind = b.kind →
      (∀ param ∈ a.kind.schema, R (a.get? param.name) (b.get? param.name)) → S a b)
    (h : g.Sound serial) (h' : g'.Sound serial')
    (hnodes : List.Forall₂ (Entry.Agrees R) (g.nodes.map Entry.ofNode) (g'.nodes.map Entry.ofNode))
    (hlinks : g.edges.map Link.ofEdge = g'.edges.map Link.ofEdge) : AlikeButPlaces S g g' := by
  constructor
  · rw [List.forall₂_map_left_iff, List.forall₂_map_right_iff] at hnodes
    exact hnodes.imp fun a b hab => ⟨hab.id, hS _ _ hab.kind fun _ hp => hab.get? hp⟩
  · rw [← edges_of_links h, hlinks, edges_of_links h']

/-! ## The law -/

/-- A legal schedule and samples of even shapes make a request of every graph that commands have
made. It lists the nodes with all their values and the edges between them, in order. Two graphs
with the same lists are the same but for their places and revisions, and if reals are compared as
numbers in the lists, they are the same with reals taken as numbers. -/
theorem a_request_is_a_faithful_graph (g : Graph) (serial : Nat) (samples : List Sample)
    (schedule : Schedule) (h : g.Reachable serial) (hschedule : schedule.Legal)
    (hsamples : EvenShapes samples) :
    ∃ r, build g samples schedule = .ok r ∧ Faithful r g samples schedule ∧
      ∀ (g' : Graph) (serial' : Nat) (samples' : List Sample) (schedule' : Schedule) (r' : Request),
        g'.Reachable serial' → build g' samples' schedule' = .ok r' → r.edges = r'.edges →
          (r.nodes = r'.nodes → AlikeButPlaces Eq g g') ∧
          (List.Forall₂ (Entry.Agrees fun x y => Layer.sameCell x y = true) r.nodes r'.nodes →
            AlikeButPlaces (fun a b => a.same b = true) g g') := by
  have hs := Graph.sound_of_reachable h
  refine ⟨ofGraph g samples schedule, build_eq_ok_iff.mpr ⟨hschedule, hsamples, rfl⟩,
    faithful_ofGraph hs samples schedule, ?_⟩
  intro g' serial' samples' schedule' r' h' hbuild hedges
  obtain ⟨_, _, rfl⟩ := build_eq_ok_iff.mp hbuild
  have hs' := Graph.sound_of_reachable h'
  constructor
  · intro hnodes
    have hagree : List.Forall₂ (Entry.Agrees Eq) (ofGraph g samples schedule).nodes
        (ofGraph g' samples' schedule').nodes := by
      rw [hnodes]
      exact List.forall₂_same.mpr fun _ _ => Entry.agrees_eq rfl
    exact alike_of_parts (fun _ _ => Layer.Record.eq_of_get?) hs hs' hagree hedges
  · exact fun hnodes =>
      alike_of_parts (fun _ _ => Layer.Record.same_of_get?) hs hs' hnodes hedges

/-- A layer that drops a quarter of its inputs and a linear layer behind it. -/
def quarterDropped : List Command :=
  [.addNode .dropout, .addNode .linear, .patchText ⟨"dropout_1"⟩ "p" "0.25",
    .connect ⟨"dropout_1"⟩ ⟨"linear_2"⟩]

/-- Two zeros in, one zero out. -/
def zeroSample : Sample :=
  ⟨⟨[2], [.zero .single false, .zero .single true], by decide⟩,
    ⟨[1], [.zero .single false], by decide⟩⟩

theorem a_moved_layer_makes_the_same_request :
    let now := Graph.run .empty 0 quarterDropped
    let later := now.1.run now.2 [.moveNode ⟨"linear_2"⟩ ⟨.zero .single false, .zero .single true⟩]
    now.1.Reachable now.2 ∧ Schedule.initial.Legal ∧ EvenShapes [zeroSample, zeroSample] ∧
      (∃ r, build now.1 [zeroSample, zeroSample] Schedule.initial = .ok r ∧
        Faithful r now.1 [zeroSample, zeroSample] Schedule.initial ∧
        r.edges = [⟨⟨"dropout_1"⟩, ⟨"linear_2"⟩⟩]) ∧
      AlikeButPlaces Eq now.1 later.1 ∧ now.1 ≠ later.1 := by
  intro now later
  have h : now.1.Reachable now.2 := (Graph.Reachable.empty 0).run quarterDropped
  have hschedule : Schedule.initial.Legal := Schedule.fault?_eq_none_iff.mp (by decide +kernel)
  have hsamples : EvenShapes [zeroSample, zeroSample] :=
    unevenSample?_eq_none_iff.mp (by decide +kernel)
  obtain ⟨r, hbuild, hfaithful, hread⟩ :=
    a_request_is_a_faithful_graph now.1 now.2 [zeroSample, zeroSample] Schedule.initial h
      hschedule hsamples
  obtain ⟨_, _, rfl⟩ := build_eq_ok_iff.mp hbuild
  refine ⟨h, hschedule, hsamples, ⟨_, hbuild, hfaithful, by decide +kernel⟩, ?_,
    by decide +kernel⟩
  have hlater : build later.1 [] Schedule.initial = .ok (ofGraph later.1 [] Schedule.initial) :=
    build_eq_ok_iff.mpr ⟨hschedule, by simp [EvenShapes], rfl⟩
  exact (hread later.1 later.2 [] Schedule.initial _ (h.run _) hlater (by decide +kernel)).1
    (by decide +kernel)

end Request

end NetEditor.Training
