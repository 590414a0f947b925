-- Binary floating point with exact meaning: a finite number is a sign and a whole number of
-- the format's smallest steps, so order, wholeness and rounding are questions about natural
-- numbers.

namespace NetEditor

/-- A binary format: how many significant bits a magnitude may have, how many binary places
its smallest step lies behind the point, and below which power of two (counted in steps)
the finite magnitudes end. -/
structure Format where
  precision : Nat
  places : Nat
  width : Nat
deriving DecidableEq, Repr

namespace Format

/-- Eight bytes a number. -/
def double : Format := ⟨53, 1074, 2098⟩

/-- Four bytes a number. -/
def single : Format := ⟨24, 149, 277⟩

/-- How many low bits must be zero in a magnitude as large as `steps`. -/
def slack (f : Format) (steps : Nat) : Nat := steps.log2 + 1 - f.precision

/-- The magnitude is in range and has no more significant bits than the format keeps. -/
def Holds (f : Format) (steps : Nat) : Prop :=
  steps < Nat.pow 2 f.width ∧ (steps >>> f.slack steps) <<< f.slack steps = steps

instance (f : Format) (steps : Nat) : Decidable (f.Holds steps) :=
  inferInstanceAs (Decidable (_ ∧ _))

/-- The number of steps in one. -/
def one (f : Format) : Nat := Nat.pow 2 f.places

theorem holds_zero (f : Format) : f.Holds 0 := by
  refine ⟨?_, by simp⟩
  rw [Nat.pow_eq]
  exact Nat.two_pow_pos f.width

end Format

/-- A floating point number. Zero has a sign, and all the invalid results are one `nan`. -/
inductive Binary (f : Format)
  | nan
  | infinite (negative : Bool)
  | finite (negative : Bool) (steps : Nat) (fits : f.Holds steps)
deriving DecidableEq

abbrev Double : Type := Binary .double

abbrev Single : Type := Binary .single

namespace Binary

variable {f : Format}

/-- The number with this many steps, or the infinity of its sign where the format ends. -/
def ofSteps (f : Format) (negative : Bool) (steps : Nat) : Binary f :=
  if fits : f.Holds steps then .finite negative steps fits else .infinite negative

def zero (f : Format) (negative : Bool) : Binary f := .finite negative 0 f.holds_zero

instance : Inhabited (Binary f) := ⟨zero f false⟩

/-- Neither infinite nor `nan`. -/
def isFinite : Binary f → Bool
  | .finite .. => true
  | _ => false

/-- Where the number stands on the line, counted in steps; the infinities stand just past
the last finite magnitude, and `nan` stands nowhere. -/
def rank? : Binary f → Option Int
  | .nan => none
  | .infinite false => some (Nat.pow 2 f.width : Nat)
  | .infinite true => some (-(Nat.pow 2 f.width : Nat))
  | .finite false n _ => some n
  | .finite true n _ => some (-n)

/-- Equality as numbers: the two zeros agree, and `nan` agrees with nothing. -/
def same (x y : Binary f) : Bool :=
  match x.rank?, y.rank? with
  | some a, some b => a == b
  | _, _ => false

def lt (x y : Binary f) : Bool :=
  match x.rank?, y.rank? with
  | some a, some b => decide (a < b)
  | _, _ => false

def le (x y : Binary f) : Bool :=
  match x.rank?, y.rank? with
  | some a, some b => decide (a ≤ b)
  | _, _ => false

/-- The whole number that a finite number is the negative or the positive of. -/
def whole? : Binary f → Option Nat
  | .finite _ n _ => if (n >>> f.places) <<< f.places = n then some (n >>> f.places) else none
  | _ => none

theorem ofSteps_of_holds {n : Nat} (s : Bool) (h : f.Holds n) :
    ofSteps f s n = .finite s n h := by
  simp [ofSteps, h]

end Binary

/-! ## Bit patterns -/

namespace Format

/-- How many bits the packed number has: magnitudes below `2 ^ precision` steps keep their
own bits, and each further doubling takes the next exponent. -/
def signBit (f : Format) : Nat := f.precision - 1 + (f.width - f.precision + 2).log2 + 1

/-- The pattern of infinity, one past the last finite magnitude. -/
def infinityBits (f : Format) : Nat := (f.width - f.precision + 2) <<< (f.precision - 1)

end Format

namespace Binary

variable {f : Format}

/-- The packed form of a magnitude: the exponent counts the dropped low bits. -/
def magnitudeBits (f : Format) (steps : Nat) : Nat :=
  let low := f.slack steps
  (low <<< (f.precision - 1)) + (steps >>> low)

def toBits : Binary f → Nat
  | .nan => f.infinityBits + (1 <<< (f.precision - 2))
  | .infinite s => f.infinityBits + (if s then 1 <<< f.signBit else 0)
  | .finite s n _ => magnitudeBits f n + (if s then 1 <<< f.signBit else 0)

end Binary

end NetEditor
