-- The fewest decimal digits that still name a floating point number: of the decimals that
-- round to it, one with the fewest digits, and among those the nearest.
import NetEditor.Numeric.Format

namespace NetEditor

/-- The decimals that round to one magnitude: the magnitude itself in the middle and the
half way points to its neighbours as ends, all in one unit that makes them whole. -/
structure Span where
  low : Nat
  middle : Nat
  high : Nat
  closed : Bool
deriving Repr

namespace Span

/-- Half way points belong to the neighbour with an even significand. -/
def contains (s : Span) (n : Nat) : Bool :=
  if s.closed then s.low ≤ n && n ≤ s.high else s.low < n && n < s.high

/-- The first of the grids ten to the power `fuel`, …, ten, one that has a point in the span,
and the point of it nearest to the middle, as a multiple of the grid's width. Of two points
equally near, `upward` takes the upper one and otherwise the even one is taken. -/
def shortest (s : Span) (upward : Bool) : (top : Nat) → Nat × Nat
  | 0 => (s.middle, 0)
  | j + 1 =>
    let unit := Nat.pow 10 (j + 1)
    let below := s.middle / unit
    let rest := s.middle % unit
    match s.contains (below * unit), s.contains ((below + 1) * unit) with
    | false, false => s.shortest upward j
    | true, false => (below, j + 1)
    | false, true => (below + 1, j + 1)
    | true, true =>
      if 2 * rest < unit then (below, j + 1)
      else if unit < 2 * rest then (below + 1, j + 1)
      else (if upward then below + 1 else below + below % 2, j + 1)

end Span

namespace Format

/-- Quarter steps are whole in the unit ten to the minus `places + 2`. -/
def decimalPlaces (f : Format) : Nat := f.places + 2

/-- The decimals that round to this magnitude. Below a power of two the numbers lie twice as
close, so the lower end is nearer there. -/
def span (f : Format) (steps : Nat) : Span :=
  let low := f.slack steps
  let gap := 1 <<< low
  let narrow := low > 0 && steps = 1 <<< steps.log2
  let scale := Nat.pow 5 f.decimalPlaces
  { low := (4 * steps - if narrow then gap else 2 * gap) * scale
    middle := 4 * steps * scale
    high := (4 * steps + 2 * gap) * scale
    closed := (steps >>> low) % 2 = 0 }

def shortest (f : Format) (upward : Bool) (steps : Nat) : Nat × Int :=
  let s := f.span steps
  let (digits, power) := s.shortest upward (Nat.toDigits 10 s.middle).length
  (digits, power - f.decimalPlaces)

end Format

end NetEditor
