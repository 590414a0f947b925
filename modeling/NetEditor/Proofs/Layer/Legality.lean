-- The laws of one layer's parameters: what a constraint lets through is legal, setting one
-- parameter leaves the others, and a new layer has only legal values.
import NetEditor.Proofs.Conversion
import NetEditor.Proofs.Names
import NetEditor.Layer.Record

namespace NetEditor.Layer

/-! ## Legal values -/

namespace Constraint

/-- The value is legal: a count that fits a word and is at least one where the constraint says so,
or a chance. -/
def Admits : Constraint → Value → Prop
  | positive, .count n => 1 ≤ n ∧ n ≤ Text.wordMax
  | nonNegative, .count n => n ≤ Text.wordMax
  | probability, .real x => x.IsChance
  | _, _ => False

instance (constraint : Constraint) (value : Value) : Decidable (constraint.Admits value) := by
  cases constraint <;> cases value <;> unfold Admits <;> infer_instance

/-- The form in which a number that keeps the bounds is stored, if it has one. -/
def form? : Constraint → Double → Option Value
  | probability, value => some (.real value.narrow)
  | positive, value | nonNegative, value => (count? value).map .count

variable {constraint : Constraint} {name : String} {value : Double} {v : Value}

theorem check_eq_ok_iff : constraint.check name value = .ok v ↔
    value.isFinite = true ∧ (∀ bound ∈ constraint.bounds, bound.1.holds value bound.2 = true) ∧
      constraint.form? value = some v := by
  unfold check
  split
  · rename_i hfin
    simp [show value.isFinite = false by simpa using hfin]
  · rename_i hfin
    split
    · rename_i comparison threshold hbad
      have hnot := List.find?_some hbad
      have hmem := List.mem_of_find?_eq_some hbad
      refine ⟨by simp, fun ⟨_, hall, _⟩ => ?_⟩
      simp [hall _ hmem] at hnot
    · rename_i hnone
      have hall : ∀ bound ∈ constraint.bounds, bound.1.holds value bound.2 = true :=
        fun bound hb => by simpa using List.find?_eq_none.mp hnone bound hb
      have hfin' : value.isFinite = true := by simpa using hfin
      rw [eq_true hfin', eq_true hall, true_and, true_and]
      cases constraint with
      | probability => simp [form?]
      | positive => cases hc : count? value <;> simp [form?, hc]
      | nonNegative => cases hc : count? value <;> simp [form?, hc]

theorem count?_le {n : Nat} (h : count? value = some n) : n ≤ Text.wordMax := by
  unfold count? at h
  split at h
  · simp only [Option.ite_none_right_eq_some, Option.some.injEq] at h
    omega
  · simp at h

/-- Of a number above zero there is no count zero. -/
theorem count?_pos {n : Nat} (h : count? value = some n)
    (hpos : (Binary.zero .double false).lt value = true) : 1 ≤ n := by
  unfold count? at h
  split at h
  · rename_i m hm
    simp only [Option.ite_none_right_eq_some, Option.some.injEq] at h
    have hne : m ≠ 0 := by
      rintro rfl
      cases value with
      | nan => simp [Binary.whole?] at hm
      | infinite s => simp [Binary.whole?] at hm
      | finite s steps hs =>
        -- a number whose whole part is all of it and zero is a zero
        simp only [Binary.whole?, Option.ite_none_right_eq_some, Option.some.injEq] at hm
        obtain ⟨hwhole, hzero⟩ := hm
        have hsteps : steps = 0 := by
          rw [← hwhole, hzero, Nat.zero_shiftLeft]
        cases s <;> simp [Binary.lt, Binary.zero, Binary.rank?, hsteps] at hpos
    have hword : 1 ≤ Text.wordMax := by decide
    omega
  · simp at h

/-- What a constraint lets through is legal. -/
theorem admits_of_check (h : constraint.check name value = .ok v) : constraint.Admits v := by
  obtain ⟨hfin, hbounds, hform⟩ := check_eq_ok_iff.mp h
  cases constraint with
  | positive =>
    obtain ⟨n, hn, rfl⟩ := Option.map_eq_some_iff.mp hform
    have hpos := hbounds _ (List.mem_singleton.mpr rfl)
    exact ⟨count?_pos hn hpos, count?_le hn⟩
  | nonNegative =>
    obtain ⟨n, hn, rfl⟩ := Option.map_eq_some_iff.mp hform
    exact count?_le hn
  | probability =>
    obtain rfl := Option.some.inj hform
    simp only [bounds, List.forall_mem_cons, Comparison.holds] at hbounds
    have hchance : value.IsChance := ⟨hfin, hbounds.1, hbounds.2.1⟩
    exact hchance.convert Format.double_proper Format.single_proper

end Constraint

/-! ## Cells -/

theorem readCell_map_initial (name : String) (params : List Param) :
    readCell name params (params.map (·.initial)) =
      (params.find? fun param => param.name = name).bind (·.initial) := by
  induction params with
  | nil => rfl
  | cons param rest ih =>
    rw [List.map_cons, readCell, ih]
    by_cases hn : param.name = name <;> simp [hn]

/-- A name stands for one parameter of a kind. -/
theorem Kind.param?_of_mem {kind : Kind} {param : Param} (h : param ∈ kind.schema) :
    kind.param? param.name = some param :=
  find?_of_mem_of_nodup kind.schema_names_nodup h

namespace Record

variable {r s : Record} {name : String} {value : Double}

theorem get?_initial {kind : Kind} {param : Param} (h : param ∈ kind.schema) :
    (initial kind).get? param.name = param.initial := by
  have hparam := Kind.param?_of_mem h
  unfold Kind.param? at hparam
  unfold get? initial
  rw [readCell_map_initial, hparam, Option.bind_some]

theorem kind_set (h : r.set name value = .ok s) : s.kind = r.kind := by
  obtain ⟨_, _, _, _, hkind, _⟩ := set_ok h
  exact hkind

/-- The parameter that was set holds what its constraint made of the number. -/
theorem get?_set_self (h : r.set name value = .ok s) :
    ∃ param v, r.kind.param? name = some param ∧ param.constraint.check name value = .ok v ∧
      s.get? name = some v := by
  obtain ⟨param, v, hparam, hcheck, hkind, hcells⟩ := set_ok h
  refine ⟨param, v, hparam, hcheck, ?_⟩
  unfold Kind.param? at hparam
  rw [get?, hkind, hcells, readCell_writeCell_self (some v) r.fits (by simp [hparam])]

/-- What the constraint of a parameter lets through is stored. -/
theorem exists_set_of_check {param : Param} {v : Value} (hp : r.kind.param? name = some param)
    (hv : param.constraint.check name value = .ok v) :
    ∃ s, r.set name value = .ok s ∧ s.get? name = some v := by
  cases hs : r.set name value with
  | error fault =>
    rcases set_eq_error_iff.mp hs with ⟨hnone, _⟩ | ⟨found, hfound, hfault⟩
    · simp [hp] at hnone
    · obtain rfl := Option.some.inj (hp.symm.trans hfound)
      simp [hv] at hfault
  | ok s =>
    obtain ⟨found, w, hfound, hw, hget⟩ := get?_set_self hs
    obtain rfl := Option.some.inj (hp.symm.trans hfound)
    obtain rfl := Except.ok.inj (hv.symm.trans hw)
    exact ⟨s, rfl, hget⟩

theorem get?_set_of_ne (h : r.set name value = .ok s) {other : String} (hne : other ≠ name) :
    s.get? other = r.get? other := by
  obtain ⟨_, v, _, _, hkind, hcells⟩ := set_ok h
  rw [get?, hkind, hcells, readCell_writeCell_of_ne hne, ← get?]

/-- Setting never empties a cell. -/
theorem get?_set_ne_none (h : r.set name value = .ok s) {other : String}
    (hsome : r.get? other ≠ none) : s.get? other ≠ none := by
  by_cases hne : other = name
  · subst hne
    obtain ⟨_, v, _, _, hv⟩ := get?_set_self h
    simp [hv]
  · rwa [get?_set_of_ne h hne]

end Record

/-! ## New layers -/

/-- A new layer leaves the parameter open. -/
def Kind.LeavesOpen (kind : Kind) (name : String) : Prop :=
  (kind = .convTranspose1d ∨ kind = .convTranspose2d) ∧ (name = "inChannels" ∨ name = "outChannels")

instance (kind : Kind) (name : String) : Decidable (kind.LeavesOpen name) :=
  inferInstanceAs (Decidable (_ ∧ _))

/-- The values of a new layer are legal, and only the channels of a transposed convolution are
open. -/
theorem initial_admitted (kind : Kind) : ∀ param ∈ kind.schema,
    (∃ v, param.initial = some v ∧ param.constraint.Admits v) ∨
      (param.initial = none ∧ kind.LeavesOpen param.name) := by
  have hopen : ∀ param ∈ kind.schema, param.initial = none → kind.LeavesOpen param.name := by
    cases kind <;> decide
  have hlegal : ∀ param ∈ kind.schema, ∀ v ∈ param.initial, param.constraint.Admits v := by
    cases kind <;> decide +kernel
  intro param hp
  cases hv : param.initial with
  | none => exact Or.inr ⟨rfl, hopen param hp hv⟩
  | some v => exact Or.inl ⟨v, rfl, hlegal param hp v hv⟩

end NetEditor.Layer
