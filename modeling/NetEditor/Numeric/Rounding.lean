-- Rounding: every result is the exact quotient carried to the nearest number of the format,
-- and a quotient half way between two of them goes to the one whose last kept bit is zero.
import NetEditor.Numeric.Format

namespace NetEditor

/-- `num / den` to the nearest whole number, a half to the even neighbour. -/
def roundHalfEven (num den : Nat) : Nat :=
  let below := num / den
  let rest := num % den
  if 2 * rest < den then below
  else if den < 2 * rest then below + 1
  else below + below % 2

namespace Format

/-- The magnitude nearest to `num / den` steps, however large. -/
def nearest (f : Format) (num den : Nat) : Nat :=
  let low := f.slack (num / den)
  roundHalfEven num (den <<< low) <<< low

def product (f : Format) (a b : Nat) : Nat := f.nearest (a * b) f.one

def quotient (f : Format) (a b : Nat) : Nat := f.nearest (a * f.one) b

def ofWhole (f : Format) (n : Nat) : Nat := f.nearest (n * f.one) 1

end Format

namespace Binary

variable {f : Format}

/-- The number nearest to a fraction of ones. -/
def ofRatio (f : Format) (negative : Bool) (num den : Nat) : Binary f :=
  ofSteps f negative (f.nearest (num * f.one) den)

def ofWhole (f : Format) (negative : Bool) (n : Nat) : Binary f := ofRatio f negative n 1

/-- The nearest number of another format, infinite past its range. -/
def convert (g : Format) : Binary f → Binary g
  | .nan => .nan
  | .infinite s => .infinite s
  | .finite s n _ => ofSteps g s (g.nearest (n * g.one) f.one)

def widen (x : Single) : Double := x.convert .double

def narrow (x : Double) : Single := x.convert .single

end Binary

theorem roundHalfEven_mul_right (n : Nat) {d : Nat} (hd : 0 < d) :
    roundHalfEven (n * d) d = n := by
  simp [roundHalfEven, Nat.mul_div_cancel n hd, hd]

/-- A fraction that already is a magnitude of the format is left as it is. -/
theorem Format.nearest_of_holds {f : Format} {n : Nat} (h : f.Holds n) {d : Nat} (hd : 0 < d) :
    f.nearest (n * d) d = n := by
  obtain ⟨_, exact⟩ := h
  unfold Format.nearest
  simp only [Nat.mul_div_cancel n hd]
  generalize f.slack n = low at exact ⊢
  have shifted : n * d = (n >>> low) * (d <<< low) := by
    conv => lhs; rw [← exact]
    simp only [Nat.shiftLeft_eq]
    rw [Nat.mul_assoc, Nat.mul_comm (_ ^ low) d]
  have positive : 0 < d <<< low := by
    rw [Nat.shiftLeft_eq]
    exact Nat.mul_pos hd (Nat.two_pow_pos low)
  rw [shifted, roundHalfEven_mul_right _ positive, exact]

end NetEditor
