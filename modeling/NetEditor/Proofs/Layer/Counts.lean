-- The law of counts. A count is stored as exactly the number that was given for it, and a number
-- that is no such count is refused for the first thing that is wrong with it. One number slips
-- through: the first one past the words is taken for the last word.
import NetEditor.Proofs.Layer.Legality
import Mathlib.Algebra.Order.Field.Basic
import Mathlib.Algebra.Order.Ring.Rat
import Mathlib.Data.Nat.Cast.Order.Field

namespace NetEditor

/-! ## The exact value of a number -/

namespace Binary

variable {f : Format} {x y : Binary f} {a b : ℚ}

/-- The exact value of a finite number. -/
def toRat? : Binary f → Option ℚ
  | .finite negative steps _ => some ((if negative then -(steps : ℚ) else steps) / 2 ^ f.places)
  | _ => none

theorem isFinite_iff_toRat? : x.isFinite = true ↔ ∃ a, x.toRat? = some a := by
  cases x <;> simp [isFinite, toRat?]

/-- A finite number stands at its value, counted in steps. -/
theorem rank?_of_toRat? (h : x.toRat? = some a) :
    ∃ r : ℤ, x.rank? = some r ∧ a = r / 2 ^ f.places := by
  cases x with
  | nan => simp [toRat?] at h
  | infinite s => simp [toRat?] at h
  | finite s n hn =>
    obtain rfl := Option.some.inj h
    cases s with
    | false => exact ⟨n, rfl, by simp⟩
    | true => exact ⟨-n, rfl, by simp⟩

theorem lt_iff (hx : x.toRat? = some a) (hy : y.toRat? = some b) : x.lt y = true ↔ a < b := by
  obtain ⟨r, hr, rfl⟩ := rank?_of_toRat? hx
  obtain ⟨s, hs, rfl⟩ := rank?_of_toRat? hy
  have hpos : (0 : ℚ) < 2 ^ f.places := pow_pos two_pos _
  simp [lt, hr, hs, div_lt_div_iff_of_pos_right hpos]

theorem le_iff (hx : x.toRat? = some a) (hy : y.toRat? = some b) : x.le y = true ↔ a ≤ b := by
  obtain ⟨r, hr, rfl⟩ := rank?_of_toRat? hx
  obtain ⟨s, hs, rfl⟩ := rank?_of_toRat? hy
  have hpos : (0 : ℚ) < 2 ^ f.places := pow_pos two_pos _
  simp [le, hr, hs, div_le_div_iff_of_pos_right hpos]

theorem toRat?_zero (f : Format) (s : Bool) : (zero f s).toRat? = some 0 := by
  cases s <;> simp [zero, toRat?]

theorem toRat?_ofWhole {n : ℕ} (h : f.Holds (n * f.one)) :
    (ofWhole f false n).toRat? = some (n : ℚ) := by
  have hne : (2 : ℚ) ^ f.places ≠ 0 := pow_ne_zero _ two_ne_zero
  rw [ofWhole_of_holds false h]
  simp [toRat?, Format.one, hne]

theorem whole?_eq_some_iff (h : x.toRat? = some a) (ha : 0 ≤ a) {n : ℕ} :
    x.whole? = some n ↔ a = n := by
  cases x with
  | nan => simp [toRat?] at h
  | infinite s => simp [toRat?] at h
  | finite s steps hs =>
    obtain rfl := Option.some.inj h
    have hpos : (0 : ℚ) < 2 ^ f.places := pow_pos two_pos _
    -- below zero there is only the negative zero
    have hvalue : (if s then -(steps : ℚ) else steps) = steps := by
      cases s with
      | false => rfl
      | true =>
        have hle : (steps : ℚ) ≤ 0 := by
          have hnum := (le_div_iff₀ hpos).mp ha
          simpa using hnum
        have hzero : (steps : ℚ) = 0 := le_antisymm hle (Nat.cast_nonneg steps)
        simp [hzero]
    have hsteps : (steps : ℚ) / 2 ^ f.places = n ↔ steps = n * 2 ^ f.places := by
      rw [div_eq_iff hpos.ne']
      exact_mod_cast Iff.rfl
    rw [hvalue, hsteps]
    simp only [whole?, Nat.shiftRight_eq_div_pow, Nat.shiftLeft_eq, Option.ite_none_right_eq_some,
      Option.some.injEq]
    constructor
    · rintro ⟨hwhole, rfl⟩
      exact hwhole.symm
    · rintro rfl
      rw [Nat.mul_div_cancel n (Nat.two_pow_pos _)]
      exact ⟨rfl, rfl⟩

end Binary

namespace Layer

/-! ## What a constraint makes of a value -/

namespace Constraint

/-- The value is within the bounds of the constraint. -/
def Keeps : Constraint → ℚ → Prop
  | positive, a => 0 < a
  | nonNegative, a => 0 ≤ a
  | probability, a => 0 ≤ a ∧ a ≤ 1

/-- The constraint is about counts. -/
def IsCount (constraint : Constraint) : Prop := constraint = positive ∨ constraint = nonNegative

/-- The number is a count within the bounds that fits a word. -/
structure Takes (constraint : Constraint) (value : Double) (n : ℕ) : Prop where
  exact : value.toRat? = some (n : ℚ)
  keeps : constraint.Keeps n
  fits : n ≤ Text.wordMax

/-- What is wrong with a number that is given for a count: the first that applies of having no
value, being out of range and not being a whole number that fits a word. -/
inductive Refuses (constraint : Constraint) (name : String) (value : Double) : Fault → Prop
  | notFinite (h : value.toRat? = none) : Refuses constraint name value (.notFinite name)
  | outOfRange {a : ℚ} {comparison : Comparison} (h : value.toRat? = some a)
      (hk : ¬ constraint.Keeps a)
      (hb : constraint.bounds = [(comparison, .zero .double false)]) :
      Refuses constraint name value
        (.outOfRange name comparison (.zero .double false) value)
  | notWhole {a : ℚ} (h : value.toRat? = some a) (hk : constraint.Keeps a)
      (hw : ∀ n : ℕ, a = n → Text.wordMax < n) :
      Refuses constraint name value (.notWhole name value)

variable {constraint : Constraint} {name : String} {value : Double} {a : ℚ}

theorem toRat?_one : (Binary.ofWhole .double false 1).toRat? = some 1 := by
  have hone : Format.double.Holds (1 * Format.double.one) :=
    (Nat.one_mul Format.double.one).symm ▸ Format.holds_one Format.double_proper
  exact_mod_cast Binary.toRat?_ofWhole hone

theorem bounds_hold_iff (h : value.toRat? = some a) :
    (∀ bound ∈ constraint.bounds, bound.1.holds value bound.2 = true) ↔ constraint.Keeps a := by
  have hzero := Binary.toRat?_zero .double false
  cases constraint with
  | positive => simp [bounds, Keeps, Comparison.holds, Binary.lt_iff hzero h]
  | nonNegative => simp [bounds, Keeps, Comparison.holds, Binary.le_iff hzero h]
  | probability =>
    simp [bounds, Keeps, Comparison.holds, Binary.le_iff hzero h, Binary.le_iff h toRat?_one]

theorem Keeps.nonneg (h : constraint.Keeps a) : 0 ≤ a := by
  cases constraint with
  | positive => exact le_of_lt h
  | nonNegative => exact h
  | probability => exact h.1

/-- A whole number is stored as it is, but for the one past the words. -/
theorem count?_eq_some_iff (h : value.toRat? = some a) (ha : 0 ≤ a) {n : ℕ} :
    count? value = some n ↔ ∃ m : ℕ, a = m ∧ m ≤ Text.wordMax + 1 ∧ n = min m Text.wordMax := by
  unfold count?
  constructor
  · intro hc
    split at hc
    · rename_i m hm
      simp only [Option.ite_none_right_eq_some, Option.some.injEq] at hc
      exact ⟨m, (Binary.whole?_eq_some_iff h ha).mp hm, hc.1, hc.2.symm⟩
    · simp at hc
  · rintro ⟨m, rfl, hle, rfl⟩
    rw [(Binary.whole?_eq_some_iff h ha).mpr rfl]
    simp [hle]

theorem IsCount.form?_eq (hc : constraint.IsCount) (value : Double) :
    constraint.form? value = (count? value).map .count := by
  rcases hc with rfl | rfl <;> rfl

theorem IsCount.exists_bounds (hc : constraint.IsCount) :
    ∃ comparison, constraint.bounds = [(comparison, .zero .double false)] := by
  rcases hc with rfl | rfl
  · exact ⟨.above, rfl⟩
  · exact ⟨.atLeast, rfl⟩

/-- A number is a count to take, or there is something wrong with it. -/
theorem takes_or_refuses (hc : constraint.IsCount) (name : String) (value : Double) :
    (∃ n, constraint.Takes value n) ∨ ∃ fault, constraint.Refuses name value fault := by
  cases h : value.toRat? with
  | none => exact Or.inr ⟨_, .notFinite h⟩
  | some a =>
    by_cases hk : constraint.Keeps a
    · by_cases hw : ∃ n : ℕ, a = n ∧ n ≤ Text.wordMax
      · obtain ⟨n, rfl, hle⟩ := hw
        exact Or.inl ⟨n, h, hk, hle⟩
      · refine Or.inr ⟨_, .notWhole h hk fun n hn => ?_⟩
        by_contra hle
        exact hw ⟨n, hn, by omega⟩
    · obtain ⟨comparison, hb⟩ := hc.exists_bounds
      exact Or.inr ⟨_, .outOfRange h hk hb⟩

theorem check_of_takes (hc : constraint.IsCount) {n : ℕ} (h : constraint.Takes value n) :
    constraint.check name value = .ok (.count n) := by
  have hcount : count? value = some n :=
    (count?_eq_some_iff h.exact h.keeps.nonneg).mpr
      ⟨n, rfl, Nat.le_succ_of_le h.fits, (Nat.min_eq_left h.fits).symm⟩
  refine check_eq_ok_iff.mpr
    ⟨Binary.isFinite_iff_toRat?.mpr ⟨_, h.exact⟩, (bounds_hold_iff h.exact).mpr h.keeps, ?_⟩
  rw [hc.form?_eq, hcount, Option.map_some]

/-- The first number past the words passes for the last word. -/
theorem check_of_past_words (hc : constraint.IsCount)
    (h : value.toRat? = some (Text.wordMax + 1 : ℕ)) :
    constraint.check name value = .ok (.count Text.wordMax) := by
  have hkeeps : constraint.Keeps (Text.wordMax + 1 : ℕ) := by
    rcases hc with rfl | rfl
    · exact Nat.cast_pos.mpr (Nat.succ_pos _)
    · exact Nat.cast_nonneg _
  have hcount : count? value = some Text.wordMax :=
    (count?_eq_some_iff h hkeeps.nonneg).mpr
      ⟨_, rfl, Nat.le_refl _, (Nat.min_eq_right (Nat.le_succ _)).symm⟩
  refine check_eq_ok_iff.mpr
    ⟨Binary.isFinite_iff_toRat?.mpr ⟨_, h⟩, (bounds_hold_iff h).mpr hkeeps, ?_⟩
  rw [hc.form?_eq, hcount, Option.map_some]

theorem check_of_refuses (hc : constraint.IsCount) {fault : Fault}
    (hne : value.toRat? ≠ some (Text.wordMax + 1 : ℕ)) (h : constraint.Refuses name value fault) :
    constraint.check name value = .error fault := by
  cases h with
  | notFinite h =>
    have hfin : value.isFinite = false := by
      rw [← Bool.not_eq_true, Binary.isFinite_iff_toRat?, h]
      simp
    simp [check, hfin]
  | @outOfRange a comparison h hk hb =>
    have hfin := Binary.isFinite_iff_toRat?.mpr ⟨a, h⟩
    have hbad : comparison.holds value (.zero .double false) = false := by
      rw [← bounds_hold_iff h, hb] at hk
      simpa using hk
    simp [check, hfin, hb, hbad]
  | @notWhole a h hk hw =>
    have hfin := Binary.isFinite_iff_toRat?.mpr ⟨a, h⟩
    have hgood : constraint.bounds.find? (fun bound => !bound.1.holds value bound.2) = none := by
      simpa using (bounds_hold_iff h).mpr hk
    have hcount : count? value = none := by
      by_contra hsome
      obtain ⟨n, hn⟩ := Option.ne_none_iff_exists'.mp hsome
      obtain ⟨m, rfl, hle, _⟩ := (count?_eq_some_iff h hk.nonneg).mp hn
      obtain rfl : m = Text.wordMax + 1 := Nat.le_antisymm hle (hw m rfl)
      exact hne h
    rcases hc with rfl | rfl <;> simp [check, hfin, hgood, hcount]

end Constraint

/-! ## The law -/

namespace Record

structure SetsExactly (r : Record) (param : Param) (value : Double) : Prop where
  /-- The whole numbers within the bound that fit a word are taken, and no other number is. -/
  taken_iff : (r.attempt param.name value).1 = none ↔ ∃ n, param.constraint.Takes value n
  stored : (r.attempt param.name value).1 = none → ∃ n : ℕ, value.toRat? = some (n : ℚ) ∧
    (r.attempt param.name value).2.get? param.name = some (.count n)
  /-- Any other number is refused for the first thing that is wrong with it. -/
  refused_iff : ∀ fault, (r.attempt param.name value).1 = some fault ↔
    param.constraint.Refuses param.name value fault
  unchanged : (r.attempt param.name value).1 ≠ none → (r.attempt param.name value).2 = r

variable {r : Record} {param : Param} {value : Double}

theorem attempt_of_check_ok (hp : param ∈ r.kind.schema) {v : Value}
    (hv : param.constraint.check param.name value = .ok v) :
    ∃ s, r.attempt param.name value = (none, s) ∧ s.get? param.name = some v := by
  obtain ⟨s, hs, hget⟩ := exists_set_of_check (Kind.param?_of_mem hp) hv
  exact ⟨s, attempt_of_ok hs, hget⟩

theorem attempt_of_check_error (hp : param ∈ r.kind.schema) {fault : Fault}
    (hf : param.constraint.check param.name value = .error fault) :
    r.attempt param.name value = (some fault, r) :=
  attempt_of_error (set_eq_error_iff.mpr (Or.inr ⟨param, Kind.param?_of_mem hp, hf⟩))

/-- A number but the first one past the words is stored as it is or refused. -/
theorem setsExactly_of_ne (hp : param ∈ r.kind.schema) (hc : param.constraint.IsCount)
    (hne : value.toRat? ≠ some (Text.wordMax + 1 : ℕ)) : r.SetsExactly param value := by
  rcases Constraint.takes_or_refuses hc param.name value with ⟨n, hn⟩ | ⟨fault, hfault⟩
  · have hcheck : param.constraint.check param.name value = .ok (.count n) :=
      Constraint.check_of_takes hc hn
    obtain ⟨s, hs, hget⟩ := attempt_of_check_ok hp hcheck
    refine ⟨?_, ?_, ?_, ?_⟩
    · simp only [hs, true_iff]
      exact ⟨n, hn⟩
    · exact fun _ => ⟨n, hn.exact, by rw [hs, hget]⟩
    · intro fault
      simp only [hs, reduceCtorEq, false_iff]
      intro hfault
      rw [Constraint.check_of_refuses hc hne hfault] at hcheck
      simp at hcheck
    · simp [hs]
  · have hcheck := Constraint.check_of_refuses hc hne hfault
    have hs := attempt_of_check_error hp hcheck
    refine ⟨?_, ?_, ?_, ?_⟩
    · simp only [hs, reduceCtorEq, false_iff]
      rintro ⟨n, hn⟩
      rw [Constraint.check_of_takes hc hn] at hcheck
      simp at hcheck
    · simp [hs]
    · intro other
      rw [hs, Option.some.injEq]
      constructor
      · rintro rfl
        exact hfault
      · intro hother
        rw [Constraint.check_of_refuses hc hne hother] at hcheck
        exact (Except.error.inj hcheck).symm
    · simp [hs]

/-- A number that is given for a count, other than the first one past the words, is stored as it is
or refused for the first thing that is wrong with it. That one number is taken for the last word. -/
theorem a_count_is_stored_as_given (r : Record) (param : Param) (value : Double)
    (hp : param ∈ r.kind.schema) (hc : param.constraint.IsCount) :
    (value.toRat? ≠ some (Text.wordMax + 1 : ℕ) → r.SetsExactly param value) ∧
      (value.toRat? = some (Text.wordMax + 1 : ℕ) →
        (r.attempt param.name value).1 = none ∧
        (r.attempt param.name value).2.get? param.name = some (.count Text.wordMax)) := by
  refine ⟨setsExactly_of_ne hp hc, fun hpast => ?_⟩
  obtain ⟨s, hs, hget⟩ := attempt_of_check_ok hp (Constraint.check_of_past_words hc hpast)
  rw [hs]
  exact ⟨rfl, hget⟩

/-- The largest number that fits a word is two thousand odd below its end. -/
theorem the_largest_count_and_the_negative_zero_are_stored :
    let inputs := Param.size "inFeatures" 16
    let padding := Param.border "padding"
    let largest : Double := .ofWhole .double false 18446744073709549568
    inputs ∈ Kind.linear.schema ∧ padding ∈ Kind.conv1d.schema ∧
      (initial .linear).SetsExactly inputs largest ∧
      (initial .conv1d).SetsExactly padding (.zero .double true) ∧
      ((initial .linear).attempt inputs.name largest).2.get? inputs.name =
        some (.count 18446744073709549568) ∧
      ((initial .conv1d).attempt padding.name (.zero .double true)).2.get? padding.name =
        some (.count 0) := by
  intro inputs padding largest
  have hinputs : inputs ∈ Kind.linear.schema := by decide
  have hpadding : padding ∈ Kind.conv1d.schema := by decide
  have hlargest : largest.toRat? = some (18446744073709549568 : ℕ) :=
    Binary.toRat?_ofWhole (by decide +kernel)
  have hlaw := (a_count_is_stored_as_given (initial .linear) inputs largest hinputs
    (Or.inl rfl)).1 (by rw [hlargest]; decide)
  have hzero := (a_count_is_stored_as_given (initial .conv1d) padding (.zero .double true) hpadding
    (Or.inr rfl)).1 (by rw [Binary.toRat?_zero]; decide)
  exact ⟨hinputs, hpadding, hlaw, hzero, by decide +kernel, by decide +kernel⟩

/-- The first number past the words is no count, and yet it is not refused: the bound that it is
held against is the last word, which as a number is rounded up to it. -/
theorem the_first_number_past_the_words_is_not_refused :
    Binary.ofWhole .double false Text.wordMax = .ofWhole .double false (Text.wordMax + 1) ∧
      ¬ ∀ (r : Record) (param : Param) (value : Double), param ∈ r.kind.schema →
        param.constraint.IsCount → r.SetsExactly param value := by
  refine ⟨by decide +kernel, fun h => ?_⟩
  have hinputs : Param.size "inFeatures" 16 ∈ Kind.linear.schema := by decide
  have hpast : (Binary.ofWhole .double false (Text.wordMax + 1)).toRat? =
      some (Text.wordMax + 1 : ℕ) := Binary.toRat?_ofWhole (by decide +kernel)
  have hlaw :=
    h (initial .linear) _ (.ofWhole .double false (Text.wordMax + 1)) hinputs (Or.inl rfl)
  obtain ⟨s, hs, hget⟩ := attempt_of_check_ok (r := initial .linear) hinputs
    (Constraint.check_of_past_words (Or.inl rfl) hpast)
  obtain ⟨n, hn⟩ := hlaw.taken_iff.mp (by rw [hs])
  have hvalue : (n : ℚ) = (Text.wordMax + 1 : ℕ) := Option.some.inj (hn.exact.symm.trans hpast)
  have hle := hn.fits
  rw [Nat.cast_inj.mp hvalue] at hle
  exact Nat.not_succ_le_self _ hle

end Record
end Layer
end NetEditor
