-- The laws of rounding and of conversion between formats. What a format keeps is a significand of
-- its precision times a power of two. Rounding always gives such a magnitude and never passes one,
-- so a number that was widened narrows back to itself, and a chance stays a chance.
import NetEditor.Numeric.Rounding
import Mathlib.Algebra.Group.Nat.Defs

namespace NetEditor

/-! ## Magnitudes of a format -/

namespace Format

/-- The format has significant bits, and one is in its range. -/
structure Proper (f : Format) : Prop where
  precision_pos : 0 < f.precision
  places_lt : f.places < f.width

/-- Every number of the first format is one of the second. -/
structure Within (f g : Format) : Prop where
  precision_le : f.precision ≤ g.precision
  places_le : f.places ≤ g.places
  width_le : f.width + (g.places - f.places) ≤ g.width

theorem double_proper : double.Proper := ⟨by decide, by decide⟩

theorem single_proper : single.Proper := ⟨by decide, by decide⟩

theorem single_within_double : single.Within double := ⟨by decide, by decide, by decide⟩

variable {f g : Format} {n : Nat}

theorem holds_iff_dvd : f.Holds n ↔ n < 2 ^ f.width ∧ 2 ^ f.slack n ∣ n := by
  simp only [Holds, Nat.pow_eq, Nat.shiftRight_eq_div_pow, Nat.shiftLeft_eq]
  exact and_congr_right fun _ => (Nat.dvd_iff_div_mul_eq n _).symm

theorem lt_two_pow_slack (f : Format) (n : Nat) : n < 2 ^ (f.precision + f.slack n) := by
  calc n < 2 ^ (n.log2 + 1) := Nat.lt_log2_self
    _ ≤ 2 ^ (f.precision + f.slack n) := Nat.pow_le_pow_right (by decide) (by unfold slack; omega)

theorem slack_mono {a b : Nat} (h : a ≤ b) : f.slack a ≤ f.slack b := by
  have hlog : a.log2 ≤ b.log2 := by
    by_cases ha : a = 0
    · simp [ha]
    · exact (Nat.le_log2 (by omega)).mpr (Nat.le_trans (Nat.log2_self_le ha) h)
  unfold slack
  omega

/-- A significand of the format's precision may stand at any exponent within the width. -/
theorem holds_of_lt {m low : Nat} (hm : m < 2 ^ f.precision) (hlt : m * 2 ^ low < 2 ^ f.width) :
    f.Holds (m * 2 ^ low) := by
  by_cases hz : m = 0
  · rw [hz, Nat.zero_mul]
    exact f.holds_zero
  · have hne : m * 2 ^ low ≠ 0 := Nat.mul_ne_zero hz (Nat.ne_of_gt (Nat.two_pow_pos low))
    have hbits : (m * 2 ^ low).log2 < f.precision + low := by
      rw [Nat.log2_lt hne, Nat.pow_add]
      exact Nat.mul_lt_mul_of_pos_right hm (Nat.two_pow_pos low)
    have hslack : f.slack (m * 2 ^ low) ≤ low := by
      unfold slack
      omega
    exact holds_iff_dvd.mpr
      ⟨hlt, Nat.dvd_trans (Nat.pow_dvd_pow 2 hslack) (Nat.dvd_mul_left _ _)⟩

theorem Holds.exists_significand (h : f.Holds n) :
    ∃ m < 2 ^ f.precision, ∃ low, n = m * 2 ^ low := by
  obtain ⟨_, m, hm⟩ := holds_iff_dvd.mp h
  refine ⟨m, ?_, f.slack n, by rw [Nat.mul_comm, ← hm]⟩
  have hlt := f.lt_two_pow_slack n
  rw [Nat.pow_add, Nat.mul_comm] at hlt
  generalize f.slack n = low at hm hlt
  rw [hm] at hlt
  exact Nat.lt_of_mul_lt_mul_left hlt

theorem holds_one (h : f.Proper) : f.Holds f.one := by
  have hone : f.one = 1 * 2 ^ f.places := (Nat.one_mul _).symm
  rw [hone]
  apply holds_of_lt (Nat.one_lt_two_pow (Nat.ne_of_gt h.precision_pos))
  rw [Nat.one_mul]
  exact Nat.pow_lt_pow_right (by decide) h.places_lt

theorem one_pos (f : Format) : 0 < f.one := Nat.two_pow_pos f.places

/-- The finer steps of a wider format are a power of two in each step. -/
theorem Within.one_eq (h : f.Within g) : g.one = 2 ^ (g.places - f.places) * f.one := by
  have hsum : g.places - f.places + f.places = g.places := Nat.sub_add_cancel h.places_le
  simp only [one, Nat.pow_eq]
  rw [← Nat.pow_add, hsum]

theorem Within.holds (h : f.Within g) (hn : f.Holds n) :
    g.Holds (n * 2 ^ (g.places - f.places)) := by
  obtain ⟨m, hm, low, rfl⟩ := hn.exists_significand
  have hlt := (holds_iff_dvd.mp hn).1
  rw [Nat.mul_assoc, ← Nat.pow_add]
  apply holds_of_lt (Nat.lt_of_lt_of_le hm (Nat.pow_le_pow_right (by decide) h.precision_le))
  calc m * 2 ^ (low + (g.places - f.places))
      = m * 2 ^ low * 2 ^ (g.places - f.places) := by rw [Nat.pow_add, Nat.mul_assoc]
    _ < 2 ^ f.width * 2 ^ (g.places - f.places) :=
      Nat.mul_lt_mul_of_pos_right hlt (Nat.two_pow_pos _)
    _ = 2 ^ (f.width + (g.places - f.places)) := (Nat.pow_add ..).symm
    _ ≤ 2 ^ g.width := Nat.pow_le_pow_right (by decide) h.width_le

end Format

/-! ## Rounding -/

theorem roundHalfEven_le_succ (num den : Nat) : roundHalfEven num den ≤ num / den + 1 := by
  have hbit : num / den % 2 ≤ 1 := by omega
  simp only [roundHalfEven]
  split
  · omega
  · split <;> omega

theorem roundHalfEven_le {num den k : Nat} (h : num ≤ k * den) : roundHalfEven num den ≤ k := by
  rcases Nat.eq_zero_or_pos den with rfl | hden
  · have hnum : num = 0 := by omega
    subst hnum
    simp [roundHalfEven]
  · have hbelow : num / den ≤ k := Nat.div_le_of_le_mul (by rwa [Nat.mul_comm] at h)
    rcases Nat.lt_or_eq_of_le hbelow with hlt | heq
    · exact Nat.le_trans (roundHalfEven_le_succ num den) hlt
    · -- the quotient is whole, so nothing is rounded up
      have hwhole : k * den ≤ num := by
        rw [← heq]
        exact Nat.div_mul_le_self num den
      exact Nat.le_of_eq (by rw [Nat.le_antisymm h hwhole, roundHalfEven_mul_right k hden])

namespace Format

variable {f : Format} {n num den : Nat}

/-- Rounding does not pass a magnitude of the format. -/
theorem nearest_le (hn : f.Holds n) (h : num ≤ n * den) : f.nearest num den ≤ n := by
  have hq : num / den ≤ n := Nat.div_le_of_le_mul (by rwa [Nat.mul_comm] at h)
  have hdvd : 2 ^ f.slack (num / den) ∣ n :=
    Nat.dvd_trans (Nat.pow_dvd_pow 2 (slack_mono hq)) (holds_iff_dvd.mp hn).2
  simp only [nearest, Nat.shiftLeft_eq]
  generalize f.slack (num / den) = low at hdvd
  obtain ⟨m, rfl⟩ := hdvd
  rw [Nat.mul_comm]
  apply Nat.mul_le_mul_left
  apply roundHalfEven_le
  calc num ≤ 2 ^ low * m * den := h
    _ = m * (den * 2 ^ low) := by rw [Nat.mul_comm (2 ^ low), Nat.mul_assoc, Nat.mul_comm den]

/-- What rounding gives is a magnitude of the format, if it is in range. A carry out of the top bit
only moves the exponent. -/
theorem holds_nearest (hf : f.Proper) (hlt : f.nearest num den < 2 ^ f.width) :
    f.Holds (f.nearest num den) := by
  have hq := f.lt_two_pow_slack (num / den)
  simp only [nearest, Nat.shiftLeft_eq] at hlt ⊢
  generalize f.slack (num / den) = low at hq hlt ⊢
  have hbelow : num / (den * 2 ^ low) < 2 ^ f.precision := by
    rw [← Nat.div_div_eq_div_mul, Nat.div_lt_iff_lt_mul (Nat.two_pow_pos low), ← Nat.pow_add]
    exact hq
  have hle := roundHalfEven_le_succ num (den * 2 ^ low)
  rcases Nat.lt_or_ge (roundHalfEven num (den * 2 ^ low)) (2 ^ f.precision) with hm | hm
  · exact holds_of_lt hm hlt
  · have hcarry : roundHalfEven num (den * 2 ^ low) * 2 ^ low = 1 * 2 ^ (f.precision + low) := by
      rw [show roundHalfEven num (den * 2 ^ low) = 2 ^ f.precision by omega, Nat.one_mul,
        Nat.pow_add]
    rw [hcarry] at hlt ⊢
    exact holds_of_lt (Nat.one_lt_two_pow (Nat.ne_of_gt hf.precision_pos)) hlt

end Format

/-! ## Conversion -/

namespace Binary

variable {f g : Format}

theorem convert_finite_of_within (h : f.Within g) (s : Bool) {n : Nat} (hn : f.Holds n) :
    (Binary.finite s n hn).convert g =
      .finite s (n * 2 ^ (g.places - f.places)) (h.holds hn) := by
  have hsteps : n * g.one = n * 2 ^ (g.places - f.places) * f.one := by
    rw [h.one_eq, Nat.mul_assoc]
  simp only [convert]
  rw [hsteps, Format.nearest_of_holds (h.holds hn) f.one_pos, ofSteps_of_holds]

/-- A number that was widened narrows to itself. -/
theorem convert_convert (h : f.Within g) (x : Binary f) : (x.convert g).convert f = x := by
  cases x with
  | nan => rfl
  | infinite s => rfl
  | finite s n hn =>
    have hsteps : n * 2 ^ (g.places - f.places) * f.one = n * g.one := by
      rw [h.one_eq, Nat.mul_assoc]
    rw [convert_finite_of_within h]
    simp only [convert]
    rw [hsteps, Format.nearest_of_holds hn g.one_pos, ofSteps_of_holds]

theorem narrow_widen (x : Single) : x.widen.narrow = x :=
  convert_convert Format.single_within_double x

/-- A whole number that the format has is left as it is. -/
theorem ofWhole_of_holds (s : Bool) {n : Nat} (h : f.Holds (n * f.one)) :
    ofWhole f s n = .finite s (n * f.one) h := by
  have hsteps := Format.nearest_of_holds h Nat.one_pos
  rw [Nat.mul_one] at hsteps
  unfold ofWhole ofRatio
  rw [hsteps, ofSteps_of_holds]

theorem ofWhole_one (h : f.Proper) :
    ofWhole f false 1 = .finite false f.one (Format.holds_one h) := by
  have hone : f.Holds (1 * f.one) := (Nat.one_mul f.one).symm ▸ Format.holds_one h
  simpa only [Nat.one_mul] using ofWhole_of_holds false hone

/-- The number is a chance: finite, not below zero and not above one. -/
structure IsChance (x : Binary f) : Prop where
  finite : x.isFinite = true
  zero_le : (zero f false).le x = true
  le_one : x.le (ofWhole f false 1) = true

instance (x : Binary f) : Decidable x.IsChance :=
  decidable_of_iff
    (x.isFinite = true ∧ (zero f false).le x = true ∧ x.le (ofWhole f false 1) = true)
    ⟨fun h => ⟨h.1, h.2.1, h.2.2⟩, fun h => ⟨h.1, h.2, h.3⟩⟩

theorem isChance_finite_iff (h : f.Proper) {s : Bool} {n : Nat} {hn : f.Holds n} :
    (Binary.finite s n hn).IsChance ↔ n ≤ f.one ∧ (s = true → n = 0) := by
  have hone := f.one_pos
  have hiff : (Binary.finite s n hn).IsChance ↔
      (zero f false).le (.finite s n hn) = true ∧
        (Binary.finite s n hn).le (ofWhole f false 1) = true :=
    ⟨fun h => ⟨h.2, h.3⟩, fun h => ⟨rfl, h.1, h.2⟩⟩
  rw [hiff, ofWhole_one h]
  cases s with
  | false => simp [zero, le, rank?]
  | true =>
    simp only [zero, le, rank?, decide_eq_true_eq, forall_const]
    omega

/-- A chance is one in every format. -/
theorem IsChance.convert (hf : f.Proper) (hg : g.Proper) {x : Binary f} (h : x.IsChance) :
    (x.convert g).IsChance := by
  cases x with
  | nan => exact absurd h.finite (by simp [isFinite])
  | infinite s => exact absurd h.finite (by simp [isFinite])
  | finite s n hn =>
    obtain ⟨hle, hs⟩ := (isChance_finite_iff hf).mp h
    have hround : g.nearest (n * g.one) f.one ≤ g.one := by
      apply Format.nearest_le (Format.holds_one hg)
      rw [Nat.mul_comm]
      exact Nat.mul_le_mul_left _ hle
    have hholds : g.Holds (g.nearest (n * g.one) f.one) :=
      Format.holds_nearest hg
        (Nat.lt_of_le_of_lt hround (Format.holds_iff_dvd.mp (Format.holds_one hg)).1)
    simp only [Binary.convert]
    rw [ofSteps_of_holds _ hholds, isChance_finite_iff hg]
    refine ⟨hround, fun hsign => ?_⟩
    -- only the negative zero comes with a sign
    have hzero : g.nearest (n * g.one) f.one ≤ 0 :=
      Format.nearest_le g.holds_zero (by simp [hs hsign])
    omega

end Binary

end NetEditor
