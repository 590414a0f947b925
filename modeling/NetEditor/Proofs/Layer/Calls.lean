-- The laws of calls on a record. A call changes one parameter or none, and calls for different
-- parameters do not get in each other's way.
import NetEditor.Proofs.Layer.Cells
import NetEditor.Proofs.Layer.Legality

namespace NetEditor.Layer.Record

/-! ## One call -/

variable {r s : Record} {name : String} {value : Double}

/-- The second record is the first with one parameter set to what its constraint makes of a
number. -/
structure ChangesTo (r : Record) (name : String) (value : Double) (s : Record) : Prop where
  kind : s.kind = r.kind
  stored : ∃ param v, r.kind.param? name = some param ∧
    param.constraint.check name value = .ok v ∧ s.get? name = some v
  others : ∀ other, other ≠ name → s.get? other = r.get? other

/-- Setting changes the one parameter, and that says all about the record afterwards. -/
theorem set_eq_ok_iff : r.set name value = .ok s ↔ r.ChangesTo name value s := by
  constructor
  · exact fun h => ⟨kind_set h, get?_set_self h, fun _ => get?_set_of_ne h⟩
  · rintro ⟨hkind, ⟨param, v, hparam, hcheck, hv⟩, hothers⟩
    obtain ⟨t, ht, hget⟩ := exists_set_of_check hparam hcheck
    have hsame : t = s := by
      refine eq_of_get? ((kind_set ht).trans hkind.symm) fun other _ => ?_
      by_cases hname : other.name = name
      · rw [hname, hget, hv]
      · rw [get?_set_of_ne ht hname, hothers other.name hname]
    rw [ht, hsame]

theorem kind_attempt (r : Record) (name : String) (value : Double) :
    (r.attempt name value).2.kind = r.kind := by
  cases hr : r.set name value with
  | error fault => rw [attempt_of_error hr]
  | ok s =>
    rw [attempt_of_ok hr]
    exact kind_set hr

theorem get?_attempt_of_ne (r : Record) {name other : String} (hne : other ≠ name)
    (value : Double) : (r.attempt name value).2.get? other = r.get? other := by
  cases hr : r.set name value with
  | error fault => rw [attempt_of_error hr]
  | ok s =>
    rw [attempt_of_ok hr]
    exact get?_set_of_ne hr hne

/-! ## Two calls -/

variable {a b : Record}

/-- Whether a number can be set is decided by the kind, whatever the record holds. -/
theorem set_alike (h : a.kind = b.kind) (name : String) (value : Double) :
    (∃ fault, a.set name value = .error fault ∧ b.set name value = .error fault) ∨
      ∃ s t, a.set name value = .ok s ∧ b.set name value = .ok t := by
  cases ha : a.set name value with
  | error fault =>
    rw [set_eq_error_iff, h, ← set_eq_error_iff] at ha
    exact Or.inl ⟨fault, rfl, ha⟩
  | ok s =>
    cases hb : b.set name value with
    | error fault =>
      rw [set_eq_error_iff, ← h, ← set_eq_error_iff, ha] at hb
      cases hb
    | ok t => exact Or.inr ⟨s, t, rfl, rfl⟩

theorem attempt_fault_eq (h : a.kind = b.kind) (name : String) (value : Double) :
    (a.attempt name value).1 = (b.attempt name value).1 := by
  rcases set_alike h name value with ⟨fault, ha, hb⟩ | ⟨s, t, ha, hb⟩
  · rw [attempt_of_error ha, attempt_of_error hb]
  · rw [attempt_of_ok ha, attempt_of_ok hb]

/-- What a call leaves under a name goes by what was there. -/
theorem get?_attempt_congr (h : a.kind = b.kind) (name : String) (value : Double) {other : String}
    (hget : a.get? other = b.get? other) :
    (a.attempt name value).2.get? other = (b.attempt name value).2.get? other := by
  by_cases hne : other = name
  · subst hne
    rcases set_alike h other value with ⟨fault, ha, hb⟩ | ⟨s, t, ha, hb⟩
    · rw [attempt_of_error ha, attempt_of_error hb]
      exact hget
    · rw [attempt_of_ok ha, attempt_of_ok hb]
      obtain ⟨param, v, hparam, hv, hs⟩ := get?_set_self ha
      obtain ⟨param', v', hparam', hv', ht⟩ := get?_set_self hb
      obtain rfl := Option.some.inj (hparam.symm.trans (h ▸ hparam'))
      obtain rfl := Except.ok.inj (hv.symm.trans hv')
      rw [hs, ht]
  · rw [get?_attempt_of_ne a hne, get?_attempt_of_ne b hne, hget]

/-- No call takes back what another one has put under another name. -/
theorem attempt_attempt (r : Record) {name other : String} (hne : name ≠ other)
    (value value' : Double) :
    ((r.attempt name value).2.attempt other value').2 =
      ((r.attempt other value').2.attempt name value).2 := by
  refine eq_of_get? (by simp only [kind_attempt]) fun param _ => ?_
  -- One of the two names is not the one read, and the call with that name is as if not made.
  by_cases hother : param.name = other
  · have hname : param.name ≠ name := fun heq => hne (heq.symm.trans hother)
    rw [get?_attempt_of_ne (r.attempt other value').2 hname]
    exact get?_attempt_congr (kind_attempt r name value) other value'
      (get?_attempt_of_ne r hname value)
  · rw [get?_attempt_of_ne (r.attempt name value).2 hother]
    exact (get?_attempt_congr (kind_attempt r other value') name value
      (get?_attempt_of_ne r hother value')).symm

end NetEditor.Layer.Record
