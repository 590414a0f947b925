-- The laws of entries. Every entry has each parameter of every kind once, so the values of a layer
-- can all be read off its entry.
import NetEditor.Proofs.Layer.Cells
import NetEditor.Training.Entry

namespace NetEditor

/-! ## The names of all parameters -/

namespace Layer

theorem mem_foldl_unless_contains {name : String} (names known : List String) :
    name ∈ names.foldl (fun known name => if known.contains name then known else known ++ [name])
      known ↔ name ∈ known ∨ name ∈ names := by
  induction names generalizing known with
  | nil => simp
  | cons first rest ih =>
    rw [List.foldl_cons, ih, List.mem_cons]
    by_cases hf : known.contains first = true
    · rw [if_pos hf]
      rw [List.contains_iff_mem] at hf
      constructor
      · rintro (h | h)
        · exact Or.inl h
        · exact Or.inr (Or.inr h)
      · rintro (h | rfl | h)
        · exact Or.inl h
        · exact Or.inl hf
        · exact Or.inr h
    · rw [if_neg hf, List.mem_append, List.mem_singleton, or_assoc]

/-- The names are those of the schemas, and none else. -/
theorem mem_paramNames {name : String} :
    name ∈ paramNames ↔ ∃ kind : Kind, ∃ param ∈ kind.schema, param.name = name := by
  unfold paramNames
  rw [mem_foldl_unless_contains]
  simp [Kind.mem_all]

theorem mem_paramNames_of_mem_schema {kind : Kind} {param : Param} (h : param ∈ kind.schema) :
    param.name ∈ paramNames := mem_paramNames.mpr ⟨kind, param, h, rfl⟩

end Layer

namespace Training.Entry

/-! ## Values in entries -/

theorem keys_paramsOf (record : Layer.Record) :
    (paramsOf record).map Prod.fst = Layer.paramNames ++ poolAliases.map Prod.fst := by
  simp [paramsOf, Function.comp_def]

/-- No name of a parameter is repeated, and no second name is the name of a parameter. -/
theorem paramsOf_keys_nodup (record : Layer.Record) :
    ((paramsOf record).map Prod.fst).Nodup := by
  rw [keys_paramsOf]
  decide +kernel

-- Closed by rewriting: `rfl` would compute all names and values.
theorem params_ofNode (node : Node) :
    (ofNode node).params = Dictionary.ofPairs (paramsOf node.record) := by
  simp only [ofNode]

theorem params_get? {node : Node} {name : String} (h : name ∈ Layer.paramNames) :
    (ofNode node).params.get? name = some (node.param? name) := by
  have hm : (name, node.param? name) ∈ paramsOf node.record := by
    rw [paramsOf, List.mem_append, List.mem_map]
    exact Or.inl ⟨name, h, rfl⟩
  rw [params_ofNode]
  exact Dictionary.get?_ofPairs (paramsOf_keys_nodup node.record) hm

/-- An entry has every parameter of the layer, and nothing where the layer has none. -/
theorem param?_ofNode {node : Node} {name : String} (h : name ∈ Layer.paramNames) :
    (ofNode node).param? name = node.param? name := by
  rw [param?, params_get? h]
  rfl

/-! ## Layers from entries -/

/-- Two entries of one name and one kind whose values agree in turn. -/
structure Agrees (R : Option Layer.Value → Option Layer.Value → Prop) (a b : Entry) : Prop where
  id : a.id = b.id
  kind : a.kind = b.kind
  params : List.Forall₂ (fun p q => p.1 = q.1 ∧ R p.2 q.2) a.params b.params

theorem agrees_eq {a b : Entry} (h : a = b) : Agrees Eq a b := by
  subst h
  exact ⟨rfl, rfl, List.forall₂_same.mpr fun _ _ => ⟨rfl, rfl⟩⟩

/-- What is found under a key in one of two dictionaries that agree agrees with what is found in
the other. -/
theorem get?_of_forall₂ {α : Type} {R : α → α → Prop} {d d' : Dictionary α}
    (h : List.Forall₂ (fun p q => p.1 = q.1 ∧ R p.2 q.2) d d') {key : String} {value value' : α}
    (hv : d.get? key = some value) (hv' : d'.get? key = some value') : R value value' := by
  unfold Dictionary.get? at hv hv'
  induction h with
  | nil => simp at hv
  | @cons p q rest rest' hpair _ ih =>
    obtain ⟨k, v⟩ := p
    obtain ⟨k', v'⟩ := q
    obtain ⟨rfl, hr⟩ := hpair
    rw [List.lookup_cons] at hv hv'
    cases hk : key == k with
    | true =>
      simp only [hk, Option.some.injEq] at hv hv'
      exact hv ▸ hv' ▸ hr
    | false =>
      simp only [hk] at hv hv'
      exact ih hv hv'

variable {R : Option Layer.Value → Option Layer.Value → Prop} {a b : Node}

/-- Entries that agree are of layers that agree under each name of their schema. -/
theorem Agrees.get? (h : Agrees R (ofNode a) (ofNode b)) {param : Layer.Param}
    (hp : param ∈ a.kind.schema) : R (a.param? param.name) (b.param? param.name) :=
  have hname := Layer.mem_paramNames_of_mem_schema hp
  get?_of_forall₂ h.params (params_get? hname) (params_get? hname)

end Training.Entry

end NetEditor
