-- The law of reading nested lists. Reading walks over the places of a value in the order in which
-- they are written, and ends at the first that does not fit the shape shown by the first items. If
-- there is none, the lists are a rectangle.
import NetEditor.Proofs.Lists
import NetEditor.Proofs.Tensor.RoundTrip
import Mathlib.Algebra.Order.BigOperators.Group.List
import Mathlib.Algebra.Order.Group.Nat

namespace NetEditor

namespace Json

/-- What holds of a list once it holds of its items, and holds of all else, holds of every value. -/
theorem items_induction {motive : Json → Prop}
    (array : ∀ items : List Json, (∀ item ∈ items, motive item) → motive (.array items))
    (number : ∀ n, motive (.number n))
    (other : ∀ value, (∀ items, value ≠ .array items) → (∀ n, value ≠ .number n) → motive value)
    (value : Json) : motive value :=
  match value with
  | .array items => array items fun item _ => items_induction array number other item
  | .number n => number n
  | .null | .bool _ | .text _ | .object _ => other _ (by simp) (by simp)

/-- The number as a single one, by way of a double. -/
def Number.narrow (n : Number) : Single := n.toDouble.narrow

/-- The numbers in nested lists, left to right. -/
def numbers : Json → List Number
  | .array items => items.flatMap numbers
  | .number n => [n]
  | _ => []

end Json

namespace Tensor

/-! ## What is read -/

/-- Nested lists of this shape. An empty list shows no axis behind it. -/
inductive Rectangular : List Nat → Json → Prop
  | number (n : Json.Number) : Rectangular [] (.number n)
  | empty : Rectangular [0] (.array [])
  | array {shape : List Nat} {first : Json} {rest : List Json}
      (h : ∀ item ∈ first :: rest, Rectangular shape item) :
      Rectangular ((rest.length + 1) :: shape) (.array (first :: rest))

/-- A value and all that lies within its lists, in the order in which it is written, each with the
shape that it is held to. -/
def places (shape : List Nat) : Json → List (List Nat × Json)
  | .array items => (shape, .array items) :: items.flatMap (places shape.tail)
  | value => [(shape, value)]

/-- Out of shape is a list that is not as long as the next axis or has none, a number that still has
one, and whatever is neither. -/
def Offends : List Nat × Json → Prop
  | (shape, .array items) => shape.head? ≠ some items.length
  | (shape, .number _) => shape ≠ []
  | _ => True

instance : DecidablePred Offends
  | (shape, .array items) => inferInstanceAs (Decidable (shape.head? ≠ some items.length))
  | (shape, .number _) => inferInstanceAs (Decidable (shape ≠ []))
  | (_, .null) | (_, .bool _) | (_, .text _) | (_, .object _) => inferInstanceAs (Decidable True)

/-- What a value out of shape is refused for. -/
def offence : Json → Fault
  | .array _ | .number _ => .ragged
  | _ => .notNumeric

theorem offence_ne_sizeMismatch (value : Json) (length : Nat) (shape : List Nat) :
    offence value ≠ .sizeMismatch length shape := by
  cases value <;> simp [offence]

/-- This place is out of shape, and none of those before it is. -/
structure FirstOffence (front : List (List Nat × Json)) (place : List Nat × Json) : Prop where
  before : ∀ earlier ∈ front, ¬ Offends earlier
  here : Offends place

variable {shape : List Nat} {value : Json} {items : List Json} {front back : List (List Nat × Json)}
  {place : List Nat × Json} {t : Tensor} {fault : Fault}

/-! ## Reading as a walk -/

def ownNumbers : Json → List Json.Number
  | .number n => [n]
  | _ => []

/-- The numbers of these places, up to the first that is out of shape. -/
def walk : List (List Nat × Json) → Except Fault (List Single)
  | [] => .ok []
  | place :: rest =>
    if Offends place then .error (offence place.2)
    else (walk rest).map ((ownNumbers place.2).map Json.Number.narrow ++ ·)

theorem walk_append (front back : List (List Nat × Json)) :
    walk (front ++ back) = (walk front).bind fun first => (walk back).map (first ++ ·) := by
  induction front with
  | nil => cases h : walk back <;> simp [walk, h, Except.map, Except.bind]
  | cons place rest ih =>
    rw [List.cons_append, walk, walk, ih]
    split
    · rfl
    · cases walk rest with
      | error fault => rfl
      | ok first => cases walk back <;> simp [Except.map, Except.bind]

theorem collectItems_eq_walk (h : ∀ item ∈ items, collect shape item = walk (places shape item)) :
    collectItems shape items = walk (items.flatMap (places shape)) := by
  induction items with
  | nil => rfl
  | cons item rest ih =>
    obtain ⟨hitem, hrest⟩ := List.forall_mem_cons.mp h
    rw [collectItems, hitem, ih hrest, List.flatMap_cons, walk_append]
    cases walk (places shape item) <;> rfl

/-- Collecting looks at each place once, a list before its items and an item before the next. -/
theorem collect_eq_walk (shape : List Nat) (value : Json) :
    collect shape value = walk (places shape value) := by
  induction value using Json.items_induction generalizing shape with
  | array items ih =>
    rw [places, walk]
    cases shape with
    | nil => simp [collect, Offends, offence]
    | cons n axes =>
      by_cases hn : items.length = n
      · -- Each item is held to the axes behind this one.
        have hitems := collectItems_eq_walk fun item hitem => ih item hitem axes
        simp only [collect, hn, Offends, ownNumbers]
        simp [hitems]
        cases walk (items.flatMap (places axes)) <;> rfl
      · simp [collect, hn, Offends, offence, Ne.symm hn]
  | number n =>
    by_cases hshape : shape = []
    · simp [collect, places, walk, Offends, ownNumbers, hshape, Json.Number.narrow, Except.map]
    · simp [collect, places, walk, Offends, offence, hshape]
  | other value harray hnumber =>
    cases value <;> simp_all [collect, places, walk, Offends, offence]

theorem walk_of_fine (h : ∀ place ∈ front, ¬ Offends place) :
    walk front = .ok ((front.flatMap fun place => ownNumbers place.2).map Json.Number.narrow) := by
  induction front with
  | nil => rfl
  | cons place rest ih =>
    obtain ⟨hplace, hrest⟩ := List.forall_mem_cons.mp h
    rw [walk, if_neg hplace, ih hrest, List.flatMap_cons, List.map_append]
    rfl

theorem walk_of_firstOffence (h : FirstOffence front place) (back : List (List Nat × Json)) :
    walk (front ++ place :: back) = .error (offence place.2) := by
  rw [walk_append, walk_of_fine h.before, walk, if_pos h.here]
  rfl

/-! ## Rectangles -/

theorem cutAtEmpty_spine (value : Json) : cutAtEmpty (spine value) = spine value := by
  fun_induction spine value with
  | case1 => rfl
  | case2 first rest ih => rw [cutAtEmpty_succ, ih]
  | case3 => rfl

theorem Rectangular.spine_eq (h : Rectangular shape value) : spine value = shape := by
  induction h with
  | number n => rfl
  | empty => rfl
  | array _ ih => rw [spine, ih _ List.mem_cons_self]

theorem Rectangular.fine (h : Rectangular shape value) :
    ∀ place ∈ places shape value, ¬ Offends place := by
  induction h with
  | number n => simp [places, Offends]
  | empty => simp [places, Offends]
  | array _ ih =>
    rw [places, List.forall_mem_cons]
    refine ⟨by simp [Offends], fun place hplace => ?_⟩
    obtain ⟨item, hitem, hplace⟩ := List.mem_flatMap.mp hplace
    exact ih item hitem place hplace

/-- What has nothing out of shape in it is a rectangle, if its shape ends at the first empty
axis. -/
theorem rectangular_of_fine (hcut : cutAtEmpty shape = shape)
    (h : ∀ place ∈ places shape value, ¬ Offends place) : Rectangular shape value := by
  induction value using Json.items_induction generalizing shape with
  | array items ih =>
    rw [places, List.forall_mem_cons] at h
    obtain ⟨hhere, hitems⟩ := h
    cases shape with
    | nil => exact absurd (by simp [Offends]) hhere
    | cons n axes =>
      obtain rfl : n = items.length := by simpa [Offends] using hhere
      cases items with
      | nil =>
        -- Nothing would hold an empty list to further axes.
        rw [List.length_nil, cutAtEmpty_zero, List.cons.injEq] at hcut
        rw [← hcut.2]
        exact .empty
      | cons first rest =>
        rw [List.length_cons, cutAtEmpty_succ, List.cons.injEq] at hcut
        refine .array fun item hitem => ih item hitem hcut.2 fun place hplace => hitems place ?_
        exact List.mem_flatMap.mpr ⟨item, hitem, hplace⟩
  | number n =>
    obtain rfl : shape = [] := by simpa [places, Offends] using h
    exact .number n
  | other value harray hnumber =>
    cases value <;> simp_all [places, Offends]

theorem rectangular_or_offence (value : Json) : Rectangular (spine value) value ∨
    ∃ front place back, places (spine value) value = front ++ place :: back ∧
      FirstOffence front place := by
  rcases forall_or_first (fun place => ¬ Offends place) (places (spine value) value) with
    hfine | ⟨front, place, back, hsplit, hfront, hplace⟩
  · exact Or.inl (rectangular_of_fine (cutAtEmpty_spine value) hfine)
  · exact Or.inr ⟨front, place, back, hsplit, hfront, not_not.mp hplace⟩

/-! ## Counts -/

theorem flatMap_ownNumbers_places (shape : List Nat) (value : Json) :
    ((places shape value).flatMap fun place => ownNumbers place.2) = value.numbers := by
  induction value using Json.items_induction generalizing shape with
  | array items ih =>
    rw [places, List.flatMap_cons, List.flatMap_assoc, Json.numbers]
    exact List.flatMap_congr fun item hitem => ih item hitem shape.tail
  | number n => simp [places, ownNumbers, Json.numbers]
  | other value harray hnumber =>
    cases value <;> simp_all [places, ownNumbers, Json.numbers]

theorem Rectangular.length_numbers (h : Rectangular shape value) :
    value.numbers.length = volume shape := by
  induction h with
  | number n => simp [Json.numbers, volume]
  | empty => simp [Json.numbers, volume]
  | @array shape first rest _ ih =>
    have hlengths : ∀ n ∈ (first :: rest).map fun item => item.numbers.length, n = volume shape :=
      List.forall_mem_map.mpr ih
    rw [Json.numbers, List.length_flatMap, List.sum_eq_card_nsmul _ _ hlengths, List.length_map,
      Nat.nsmul_eq_mul, volume, List.length_cons]

/-- The axes that are not empty span numbers or else empty lists, and each of these is a place. -/
theorem Rectangular.volume_filter_le (h : Rectangular shape value) (held : List Nat) :
    volume (shape.filter (· ≠ 0)) ≤ (places held value).length := by
  induction h generalizing held with
  | number n => simp [places, volume]
  | empty => simp [places, volume]
  | @array shape first rest _ ih =>
    have hlengths : ∀ n ∈ (first :: rest).map fun item => (places held.tail item).length,
        volume (shape.filter (· ≠ 0)) ≤ n :=
      List.forall_mem_map.mpr fun item hitem => ih item hitem held.tail
    have hkept : ((rest.length + 1) :: shape).filter (· ≠ 0) =
        (rest.length + 1) :: shape.filter (· ≠ 0) := by simp
    have hsum := List.card_nsmul_le_sum _ _ hlengths
    rw [List.length_map, Nat.nsmul_eq_mul, List.length_cons] at hsum
    rw [places, List.length_cons, List.length_flatMap, hkept, volume]
    exact Nat.le_succ_of_le hsum

theorem Rectangular.fits (h : Rectangular shape value)
    (hsize : (places shape value).length ≤ volumeMax) :
    Fits shape (value.numbers.map Json.Number.narrow) :=
  ⟨(List.length_map _).trans h.length_numbers, (h.volume_filter_le shape).trans hsize⟩

/-! ## Reading -/

theorem ofNested_eq_of_rectangular (h : Rectangular shape value) :
    ofNested value = ofData (value.numbers.map Json.Number.narrow) shape := by
  unfold ofNested
  rw [h.spine_eq, collect_eq_walk, walk_of_fine h.fine, flatMap_ownNumbers_places]

theorem ofNested_of_rectangular (h : Rectangular shape value)
    (hsize : (places (spine value) value).length ≤ volumeMax) :
    ∃ t, ofNested value = .ok t ∧ t.shape = shape ∧
      t.data = value.numbers.map Json.Number.narrow := by
  rw [h.spine_eq] at hsize
  exact ⟨_, (ofNested_eq_of_rectangular h).trans (ofData_of_fits (h.fits hsize)), rfl, rfl⟩

theorem ofNested_of_firstOffence (hsplit : places (spine value) value = front ++ place :: back)
    (h : FirstOffence front place) : ofNested value = .error (offence place.2) := by
  unfold ofNested
  rw [collect_eq_walk, hsplit, walk_of_firstOffence h]

/-- Whatever is read is a rectangle, however large. -/
theorem rectangular_of_ofNested (h : ofNested value = .ok t) :
    Rectangular t.shape value ∧ t.data = value.numbers.map Json.Number.narrow := by
  rcases rectangular_or_offence value with hrect | ⟨front, place, back, hsplit, hoffence⟩
  · rw [ofNested_eq_of_rectangular hrect] at h
    obtain ⟨hshape, hdata⟩ := of_ofData_ok h
    exact ⟨hshape ▸ hrect, hdata⟩
  · cases (ofNested_of_firstOffence hsplit hoffence).symm.trans h

theorem ofNested_eq_error_iff (hsize : (places (spine value) value).length ≤ volumeMax) :
    ofNested value = .error fault ↔
      ∃ front place back, places (spine value) value = front ++ place :: back ∧
        FirstOffence front place ∧ fault = offence place.2 := by
  constructor
  · intro h
    rcases rectangular_or_offence value with hrect | ⟨front, place, back, hsplit, hoffence⟩
    · obtain ⟨t, ht, _⟩ := ofNested_of_rectangular hrect hsize
      cases ht.symm.trans h
    · have htold := ofNested_of_firstOffence hsplit hoffence
      exact ⟨front, place, back, hsplit, hoffence, Except.error.inj (h.symm.trans htold)⟩
  · rintro ⟨front, place, back, hsplit, hoffence, rfl⟩
    exact ofNested_of_firstOffence hsplit hoffence

/-! ## The law -/

structure ReadExactly (value : Json) : Prop where
  accepted_iff : (∃ t, ofNested value = .ok t) ↔ ∃ shape, Rectangular shape value
  /-- A rectangle is read to its shape and to its numbers, left to right. -/
  accepted : ∀ shape, Rectangular shape value → ∃ t, ofNested value = .ok t ∧ t.shape = shape ∧
    t.data = value.numbers.map Json.Number.narrow
  /-- All else is refused for the first of its places that is out of the shape that the first items
  show. -/
  refused_iff : ∀ fault, ofNested value = .error fault ↔
    ∃ front place back, places (spine value) value = front ++ place :: back ∧
      FirstOffence front place ∧ fault = offence place.2
  never_mismatched : ∀ length shape, ofNested value ≠ .error (.sizeMismatch length shape)

/-- Nested lists are read exactly if they are a rectangle of numbers, and else refused for the first
item that is out of shape. This holds of every value with no more places than a tensor may span. -/
theorem nested_lists_are_read_if_rectangular (value : Json)
    (hsize : (places (spine value) value).length ≤ volumeMax) : ReadExactly value where
  accepted_iff := ⟨fun ⟨t, ht⟩ => ⟨t.shape, (rectangular_of_ofNested ht).1⟩, fun ⟨_, hrect⟩ =>
    (ofNested_of_rectangular hrect hsize).imp fun _ ht => ht.1⟩
  accepted _ hrect := ofNested_of_rectangular hrect hsize
  refused_iff _ := ofNested_eq_error_iff hsize
  never_mismatched length shape h := by
    obtain ⟨_, place, _, _, _, hfault⟩ := (ofNested_eq_error_iff hsize).mp h
    exact offence_ne_sizeMismatch place.2 length shape hfault.symm

def twoRows : Json :=
  .array [.array [.number (.whole 1), .number (.whole 2)],
    .array [.number (.whole 3), .number (.whole (-4))]]

/-- Two rows, of which the second is too short and holds no number. -/
def shortRow : Json :=
  .array [.array [.number (.whole 1), .number (.whole 2)], .array [.bool true]]

/-- The short row is met before what is in it. -/
theorem two_rows_are_read_and_a_short_one_is_not :
    (places (spine twoRows) twoRows).length ≤ volumeMax ∧
    (places (spine shortRow) shortRow).length ≤ volumeMax ∧
    (∃ t, ofNested twoRows = .ok t ∧ t.shape = [2, 2] ∧
      t.data = [.ofWhole .single false 1, .ofWhole .single false 2, .ofWhole .single false 3,
        .ofWhole .single true 4]) ∧
    ofNested shortRow = .error .ragged := by
  have hrows : (places (spine twoRows) twoRows).length ≤ volumeMax := by
    simp [twoRows, places, volumeMax, Text.wordMax]
  have hshort : (places (spine shortRow) shortRow).length ≤ volumeMax := by
    simp [shortRow, places, volumeMax, Text.wordMax]
  have hrow : ∀ a b : Json.Number, Rectangular [2] (.array [.number a, .number b]) := fun a b =>
    .array (List.forall_mem_cons.mpr ⟨.number a, List.forall_mem_singleton.mpr (.number b)⟩)
  obtain ⟨t, ht, hshape, hdata⟩ :=
    (nested_lists_are_read_if_rectangular twoRows hrows).accepted [2, 2]
      (.array (List.forall_mem_cons.mpr ⟨hrow _ _, List.forall_mem_singleton.mpr (hrow _ _)⟩))
  refine ⟨hrows, hshort, ⟨t, ht, hshape, hdata.trans ?_⟩, ?_⟩
  · simp only [twoRows, Json.numbers, List.flatMap_cons, List.flatMap_nil, List.append_nil,
      List.cons_append, List.nil_append]
    decide +kernel
  · refine ((nested_lists_are_read_if_rectangular shortRow hshort).refused_iff .ragged).mpr
      ⟨[([2, 2], shortRow), ([2], .array [.number (.whole 1), .number (.whole 2)]),
        ([], .number (.whole 1)), ([], .number (.whole 2))], ([2], .array [.bool true]),
        [([], .bool true)], by simp [shortRow, places, spine], ⟨?_, by decide⟩, rfl⟩
    simp [shortRow, Offends]
end Tensor

end NetEditor
