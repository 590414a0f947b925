-- The law of verdicts. A connection is judged by a table of which the first rule that applies
-- decides, and the table looks at the two kinds and at one parameter of each end. What this
-- parameter holds is a count, so that a dimension is unknown only where it was not set.
import NetEditor.Node.Connection
import NetEditor.Proofs.Layer.Legality

namespace NetEditor

/-! ## Dimensions -/

namespace Layer

/-- A cell that is not empty holds a value of the form of its parameter. -/
theorem carries_of_readCell {name : String} {params : List Param} {cells : List (Option Value)}
    {param : Param} {v : Value} (h : fitsSchema params cells = true)
    (hp : params.find? (fun p => p.name = name) = some param)
    (hv : readCell name params cells = some v) : param.constraint.carries v = true := by
  fun_induction readCell name params cells with
  | case1 first params cell cells hname =>
    simp only [fitsSchema, Bool.and_eq_true] at h
    simp only [hname, decide_true, List.find?_cons_of_pos, Option.some.injEq] at hp
    subst hp hv
    exact h.1
  | case2 first params cell cells hname ih =>
    simp only [fitsSchema, Bool.and_eq_true] at h
    exact ih h.2 (by simpa [hname] using hp) hv
  | case3 => simp at hv

def Kind.Counts (kind : Kind) (name : String) : Prop :=
  ∃ param ∈ kind.schema, param.name = name ∧ param.constraint = .positive

theorem Kind.counts_outputKey (kind : Kind) : ∀ name ∈ kind.outputKey, kind.Counts name := by
  unfold Counts
  cases kind <;> decide

theorem Kind.counts_inputKey (kind : Kind) : ∀ name ∈ kind.inputKey, kind.Counts name := by
  unfold Counts
  cases kind <;> decide

namespace Record

variable {r s : Record} {key : Option String}

theorem exists_count_of_get? {name : String} {v : Value} (hname : r.kind.Counts name)
    (hv : r.get? name = some v) : ∃ n, v = .count n := by
  obtain ⟨param, hp, rfl, hpositive⟩ := hname
  have hcarries := carries_of_readCell r.fits (Kind.param?_of_mem hp) hv
  rw [hpositive] at hcarries
  cases v with
  | count n => exact ⟨n, rfl⟩
  | real x => cases hcarries

/-- The dimension is the count under the key, and is known if one is set. -/
theorem map_count_dim (h : ∀ name ∈ key, r.kind.Counts name) :
    (r.dim key).map Value.count = key.bind r.get? := by
  cases key with
  | none => rfl
  | some name =>
    unfold dim
    rw [Option.bind_some]
    cases hv : r.get? name with
    | none => rfl
    | some v =>
      obtain ⟨n, rfl⟩ := exists_count_of_get? (h name rfl) hv
      rfl

/-- A dimension looks only at the parameter of its key. -/
theorem dim_eq (h : ∀ name ∈ key, r.get? name = s.get? name) : r.dim key = s.dim key := by
  cases key with
  | none => rfl
  | some name => exact congrArg (Option.bind · Value.toCount?) (h name rfl)

end Record

end Layer

namespace Node

variable {node old s t s' t' : Node} {a b : Nat}

theorem map_count_outputDim (node : Node) :
    node.outputDim.map Layer.Value.count = node.kind.outputKey.bind node.param? :=
  Layer.Record.map_count_dim node.kind.counts_outputKey

theorem map_count_inputDim (node : Node) :
    node.inputDim.map Layer.Value.count = node.kind.inputKey.bind node.param? :=
  Layer.Record.map_count_dim node.kind.counts_inputKey

theorem outputDim_eq (hkind : node.kind = old.kind)
    (hparam : ∀ key ∈ node.kind.outputKey, node.param? key = old.param? key) :
    node.outputDim = old.outputDim := by
  rw [outputDim, Layer.Record.dim_eq hparam, hkind, ← outputDim]

theorem inputDim_eq (hkind : node.kind = old.kind)
    (hparam : ∀ key ∈ node.kind.inputKey, node.param? key = old.param? key) :
    node.inputDim = old.inputDim := by
  rw [inputDim, Layer.Record.dim_eq hparam, hkind, ← inputDim]

/-! ## Rules -/

/-- A verdict looks only at the two kinds and the two dimensions. -/
theorem refusal?_eq (hs : s'.kind = s.kind) (ht : t'.kind = t.kind)
    (hout : s'.outputDim = s.outputDim) (hin : t'.inputDim = t.inputDim) :
    s'.refusal? t' = s.refusal? t := by
  unfold refusal? kindRefusal?
  rw [hs, ht, hout, hin]

/-- The rules, of which the first that applies decides. -/
inductive Ruled (s t : Node) : Option Refusal → Prop
  | embedding (h : t.kind = .embedding) : Ruled s t (some .embeddingTarget)
  | mismatch {a b : Nat} (h : t.kind ≠ .embedding) (hs : s.outputDim = some a)
      (ht : t.inputDim = some b) (hne : a ≠ b) : Ruled s t (some (.dimensionMismatch a b))
  | equal {a : Nat} (h : t.kind ≠ .embedding) (hs : s.outputDim = some a)
      (ht : t.inputDim = some a) : Ruled s t none
  | undetermined (hs : s.kind = .linear) (ht : t.kind = .conv1d)
      (hunknown : s.outputDim = none ∨ t.inputDim = none) :
      Ruled s t (some .channelsUndetermined)
  | unknown (h : t.kind ≠ .embedding) (hother : ¬ (s.kind = .linear ∧ t.kind = .conv1d))
      (hunknown : s.outputDim = none ∨ t.inputDim = none) : Ruled s t none

/-- When the kind of the target is looked at, embeddings and known dimensions that differ are out
already. So this look, which could refuse both, refuses neither: it only asks a linear layer and a
convolution for what is unknown. -/
theorem kindRefusal?_eq (h : t.kind ≠ .embedding)
    (hagree : ∀ a b, s.outputDim = some a → t.inputDim = some b → a = b) :
    s.kindRefusal? t =
      if (s.kind = .linear ∧ t.kind = .conv1d) ∧ (s.outputDim = none ∨ t.inputDim = none) then
        some .channelsUndetermined
      else none := by
  unfold kindRefusal?
  cases ht : t.kind with
  | embedding => exact absurd ht h
  | conv1d =>
    by_cases hs : s.kind = .linear
    · rw [if_pos hs]
      cases hout : s.outputDim with
      | none => simp [Dim.unlessKnownEqual?, hs]
      | some a =>
        cases hin : t.inputDim with
        | none => simp [Dim.unlessKnownEqual?, hs]
        | some b => simp [Dim.unlessKnownEqual?, hagree a b hout hin]
    · simp [hs]
  | _ => simp

theorem ruled_kindRefusal? (h : t.kind ≠ .embedding)
    (hagree : ∀ a b, s.outputDim = some a → t.inputDim = some b → a = b) :
    Ruled s t (s.kindRefusal? t) := by
  rw [kindRefusal?_eq h hagree]
  by_cases hunknown : s.outputDim = none ∨ t.inputDim = none
  · by_cases hneeds : s.kind = .linear ∧ t.kind = .conv1d
    · rw [if_pos ⟨hneeds, hunknown⟩]
      exact .undetermined hneeds.1 hneeds.2 hunknown
    · rw [if_neg fun hboth => hneeds hboth.1]
      exact .unknown h hneeds hunknown
  · rw [if_neg fun hboth => hunknown hboth.2]
    obtain ⟨hout, hin⟩ := not_or.mp hunknown
    obtain ⟨a, ha⟩ := Option.ne_none_iff_exists'.mp hout
    obtain ⟨b, hb⟩ := Option.ne_none_iff_exists'.mp hin
    obtain rfl := hagree a b ha hb
    exact .equal h ha hb

theorem ruled_refusal? (s t : Node) : Ruled s t (s.refusal? t) := by
  unfold refusal?
  by_cases h : t.kind = .embedding
  · rw [if_pos h]
    exact .embedding h
  · rw [if_neg h]
    cases hs : s.outputDim with
    | none => exact ruled_kindRefusal? h (by simp [hs])
    | some a =>
      cases ht : t.inputDim with
      | none => exact ruled_kindRefusal? h (by simp [ht])
      | some b =>
        by_cases hab : a = b
        · simp only [Dim.mismatch?, if_pos hab]
          exact ruled_kindRefusal? h (by simp [hs, ht, hab])
        · simp only [Dim.mismatch?, if_neg hab]
          exact .mismatch h hs ht hab

end Node

/-! ## What a kind asks for -/

/-- What has to be true of the dimension that is given and the one that is expected. -/
inductive Demand
  | never
  | bothKnown
  | noConflict
  | nothing
deriving DecidableEq, Repr

namespace Demand

def MetBy (given expected : Dim) : Demand → Prop
  | never => False
  | bothKnown => ∃ n, given = some n ∧ expected = some n
  | noConflict => ∀ a b, given = some a → expected = some b → a = b
  | nothing => True

theorem bothKnown_metBy_iff (given expected : Dim) : bothKnown.MetBy given expected ↔
    noConflict.MetBy given expected ∧ ¬ (given = none ∨ expected = none) := by
  cases given <;> cases expected <;> simp [MetBy, eq_comm]

theorem noConflict_metBy_of_unknown (given : Dim) : noConflict.MetBy given none := by
  simp [MetBy]

end Demand

/-- What a kind asks of a connection from a layer of another kind. Layers that keep the shape of
what they get ask for nothing. -/
def Layer.Kind.demand (source : Layer.Kind) : Layer.Kind → Demand
  | embedding => .never
  | conv1d => if source = linear then .bothKnown else .noConflict
  | linear | layerNorm | conv2d | conv3d | convTranspose1d | convTranspose2d => .noConflict
  | avgPool1d | avgPool2d | avgPool3d | maxPool1d | maxPool2d | maxPool3d => .noConflict
  | adaptiveAvgPool1d | adaptiveAvgPool2d => .noConflict
  | relu | dropout => .nothing

/-! ## The law -/

structure Judged (s t : Node) (verdict : Option Refusal) : Prop where
  embedding_iff : verdict = some .embeddingTarget ↔ t.kind = .embedding
  mismatch_iff : ∀ a b, verdict = some (.dimensionMismatch a b) ↔
    t.kind ≠ .embedding ∧ s.outputDim = some a ∧ t.inputDim = some b ∧ a ≠ b
  undetermined_iff : verdict = some .channelsUndetermined ↔
    s.kind = .linear ∧ t.kind = .conv1d ∧ (s.outputDim = none ∨ t.inputDim = none)
  allowed_iff : verdict = none ↔ t.kind ≠ .embedding ∧
    (∀ a b, s.outputDim = some a → t.inputDim = some b → a = b) ∧
    ¬ (s.kind = .linear ∧ t.kind = .conv1d ∧ (s.outputDim = none ∨ t.inputDim = none))
  /-- Allowed is what meets the demand of the target's kind. -/
  demand_iff : verdict = none ↔ (s.kind.demand t.kind).MetBy s.outputDim t.inputDim
  /-- A dimension is what its parameter is set to, and unknown only if that is not set. -/
  dims_read : s.outputDim.map Layer.Value.count = s.kind.outputKey.bind s.param? ∧
    t.inputDim.map Layer.Value.count = t.kind.inputKey.bind t.param?
  /-- Nodes of the same kinds that have these parameters the same are judged the same. -/
  replaced : ∀ s' t' : Node, s'.kind = s.kind → t'.kind = t.kind →
    (∀ key ∈ s.kind.outputKey, s'.param? key = s.param? key) →
    (∀ key ∈ t.kind.inputKey, t'.param? key = t.param? key) →
    connectionRefusal? (some s') (some t') = verdict

namespace Node

variable {s t : Node} {verdict : Option Refusal}

theorem Ruled.ne_missingNode (h : Ruled s t verdict) : verdict ≠ some .missingNode := by
  cases h <;> simp

theorem Ruled.embedding_iff (h : Ruled s t verdict) :
    verdict = some .embeddingTarget ↔ t.kind = .embedding := by
  cases h <;> simp_all

theorem Ruled.mismatch_iff (h : Ruled s t verdict) (a b : Nat) :
    verdict = some (.dimensionMismatch a b) ↔
      t.kind ≠ .embedding ∧ s.outputDim = some a ∧ t.inputDim = some b ∧ a ≠ b := by
  cases h <;> grind

theorem Ruled.undetermined_iff (h : Ruled s t verdict) :
    verdict = some .channelsUndetermined ↔
      s.kind = .linear ∧ t.kind = .conv1d ∧ (s.outputDim = none ∨ t.inputDim = none) := by
  cases h <;> grind

/-- None of the rules that forbid applies. -/
theorem Ruled.allowed_iff (h : Ruled s t verdict) : verdict = none ↔ t.kind ≠ .embedding ∧
    (∀ a b, s.outputDim = some a → t.inputDim = some b → a = b) ∧
    ¬ (s.kind = .linear ∧ t.kind = .conv1d ∧ (s.outputDim = none ∨ t.inputDim = none)) := by
  cases h <;> grind

/-- The rules and the demands of the kinds allow the same connections. -/
theorem metBy_demand_iff (s t : Node) :
    (s.kind.demand t.kind).MetBy s.outputDim t.inputDim ↔ t.kind ≠ .embedding ∧
      Demand.noConflict.MetBy s.outputDim t.inputDim ∧
      ¬ (s.kind = .linear ∧ t.kind = .conv1d ∧ (s.outputDim = none ∨ t.inputDim = none)) := by
  cases hk : t.kind with
  | embedding => simp [Layer.Kind.demand, Demand.MetBy]
  | conv1d =>
    by_cases hs : s.kind = .linear
    · simp [Layer.Kind.demand, hs, Demand.bothKnown_metBy_iff]
    · simp [Layer.Kind.demand, hs]
  | relu | dropout =>
    have hunknown : t.inputDim = none := by rw [inputDim, hk]; rfl
    simp [Layer.Kind.demand, Demand.MetBy, hunknown]
  | _ => simp [Layer.Kind.demand]

theorem judged_refusal? (s t : Node) : Judged s t (s.refusal? t) where
  embedding_iff := (ruled_refusal? s t).embedding_iff
  mismatch_iff := (ruled_refusal? s t).mismatch_iff
  undetermined_iff := (ruled_refusal? s t).undetermined_iff
  allowed_iff := (ruled_refusal? s t).allowed_iff
  demand_iff := (ruled_refusal? s t).allowed_iff.trans (metBy_demand_iff s t).symm
  dims_read := ⟨s.map_count_outputDim, t.map_count_inputDim⟩
  replaced _ _ hs ht hout hin :=
    refusal?_eq hs ht (outputDim_eq hs fun key hkey => hout key (hs ▸ hkey))
      (inputDim_eq ht fun key hkey => hin key (ht ▸ hkey))

end Node

/-- A connection is refused for a missing end, and else judged by the first rule that applies. -/
theorem a_connection_is_judged_by_the_first_rule_that_applies (source target : Option Node) :
    (connectionRefusal? source target = some .missingNode ↔ source = none ∨ target = none) ∧
      ∀ s ∈ source, ∀ t ∈ target, Judged s t (connectionRefusal? source target) := by
  cases source with
  | none => simp [connectionRefusal?]
  | some s =>
    cases target with
    | none => simp [connectionRefusal?]
    | some t =>
      have hpresent : connectionRefusal? (some s) (some t) ≠ some .missingNode :=
        (Node.ruled_refusal? s t).ne_missingNode
      refine ⟨by simpa using hpresent, fun s' hs t' ht => ?_⟩
      obtain rfl := Option.some.inj hs
      obtain rfl := Option.some.inj ht
      exact Node.judged_refusal? s t

/-- A convolution that leaves its channels open lets an activation in, but no linear layer. -/
theorem open_channels_are_refused_to_a_linear_layer :
    let linear := Node.initial ⟨"linear_1"⟩ .linear
    let relu := Node.initial ⟨"relu_2"⟩ .relu
    let conv : Node := ⟨⟨"conv1d_3"⟩, (Layer.Record.initial .conv1d).clear "inChannels", .initial⟩
    linear.outputDim = some 16 ∧ conv.inputDim = none ∧
      connectionRefusal? (some linear) (some conv) = some .channelsUndetermined ∧
      connectionRefusal? (some relu) (some conv) = none := by
  intro linear relu conv
  have hunknown : conv.inputDim = none := by decide +kernel
  have hlinear := (a_connection_is_judged_by_the_first_rule_that_applies (some linear)
    (some conv)).2 linear rfl conv rfl
  have hrelu := (a_connection_is_judged_by_the_first_rule_that_applies (some relu)
    (some conv)).2 relu rfl conv rfl
  refine ⟨by decide +kernel, hunknown, hlinear.undetermined_iff.mpr ⟨rfl, rfl, Or.inr hunknown⟩, ?_⟩
  exact hrelu.demand_iff.mpr (Demand.noConflict_metBy_of_unknown _)

end NetEditor
