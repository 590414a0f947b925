-- The law of values that are read as tensors and written again. The nesting stays as it was, empty
-- lists included, and the numbers come back as single ones.
import NetEditor.Proofs.Tensor.Rectangles

namespace NetEditor

/-! ## Numbers -/

namespace Binary

variable {f g : Format}

theorem ofSteps_ne_nan (negative : Bool) (steps : Nat) : ofSteps f negative steps ≠ .nan := by
  unfold ofSteps
  split <;> simp

theorem convert_ne_nan {x : Binary f} (h : x ≠ .nan) : x.convert g ≠ .nan := by
  cases x with
  | nan => exact absurd rfl h
  | infinite negative => simp [convert]
  | finite negative steps fits => exact ofSteps_ne_nan negative _

theorem ne_nan_of_isFinite {x : Binary f} (h : x.isFinite = true) : x ≠ .nan := by
  rintro rfl
  cases h

end Binary

namespace Json

theorem Number.narrow_ne_nan (n : Number) : n.narrow ≠ .nan := by
  apply Binary.convert_ne_nan
  cases n with
  | whole n =>
    unfold Number.toDouble Binary.ofWhole Binary.ofRatio
    exact Binary.ofSteps_ne_nan _ _
  | double x finite => exact Binary.ne_nan_of_isFinite finite
  | single x finite => exact Binary.convert_ne_nan (Binary.ne_nan_of_isFinite finite)

/-- The value with each of its numbers as a single one. -/
def narrowed : Json → Json
  | .array items => .array (items.map narrowed)
  | .number n => .single n.narrow
  | value => value

/-- A number is lost exactly if it is too large for a single one. -/
theorem narrowed_number_eq_null_iff (n : Number) :
    (Json.number n).narrowed = .null ↔ ∃ negative, n.narrow = .infinite negative := by
  have hnan := n.narrow_ne_nan
  rw [narrowed]
  cases h : n.narrow with
  | nan => exact absurd h hnan
  | infinite negative => simp [Json.single, Binary.isFinite]
  | finite negative steps fits => simp [Json.single, Binary.isFinite]

/-- What lies this many lists deep. -/
def atDepth : Nat → Json → List Json
  | 0, value => [value]
  | depth + 1, .array items => items.flatMap (atDepth depth)
  | _ + 1, _ => []

end Json

namespace Tensor

variable {shape : List Nat} {value : Json} {size depth : Nat} {items : List Json} {t : Tensor}

/-! ## Writing what was read -/

theorem chunks_flatten {runs : List (List Single)} (h : ∀ run ∈ runs, run.length = size) :
    chunks runs.length size runs.flatten = runs := by
  induction runs with
  | nil => rfl
  | cons run rest ih =>
    obtain ⟨hrun, hrest⟩ := List.forall_mem_cons.mp h
    rw [List.length_cons, List.flatten_cons, chunks, List.take_left' hrun, List.drop_left' hrun,
      ih hrest]

/-- Each item of a rectangle is one run of its numbers. -/
theorem nest_of_rectangular (h : Rectangular shape value) :
    nest shape (value.numbers.map Json.Number.narrow) = value.narrowed := by
  induction h with
  | number n => simp [nest, Json.numbers, Json.narrowed]
  | empty => simp [nest, chunks, Json.narrowed]
  | @array shape first rest h ih =>
    have hruns : ∀ run ∈ (first :: rest).map fun item => item.numbers.map Json.Number.narrow,
        run.length = volume shape :=
      List.forall_mem_map.mpr fun item hitem =>
        (List.length_map _).trans (h item hitem).length_numbers
    have hchunks := chunks_flatten hruns
    rw [List.length_map, List.length_cons, ← List.flatMap_def, ← List.map_flatMap] at hchunks
    rw [nest, Json.numbers, hchunks, Json.narrowed, List.map_map]
    exact congrArg Json.array (List.map_congr_left ih)

/-! ## Lengths -/

theorem array_notMem_atDepth_number (n : Json.Number) :
    .array items ∉ (Json.number n).narrowed.atDepth depth := by
  unfold Json.narrowed Json.single
  cases depth <;> split <;> simp [Json.atDepth]

theorem array_mem_atDepth_zero {other : List Json} :
    .array items ∈ (Json.array other).narrowed.atDepth 0 ↔ items = other.map Json.narrowed := by
  simp [Json.narrowed, Json.atDepth]

theorem mem_atDepth_succ {inner : Json} :
    inner ∈ (Json.array items).narrowed.atDepth (depth + 1) ↔
      ∃ item ∈ items, inner ∈ item.narrowed.atDepth depth := by
  simp [Json.narrowed, Json.atDepth, List.mem_flatMap]

/-- All lists that lie equally deep are as long as the axis at this depth. -/
theorem Rectangular.getElem?_of_mem_atDepth (h : Rectangular shape value)
    (hitems : .array items ∈ value.narrowed.atDepth depth) :
    shape[depth]? = some items.length := by
  induction h generalizing depth with
  | number n => exact absurd hitems (array_notMem_atDepth_number n)
  | empty =>
    cases depth with
    | zero => simp [array_mem_atDepth_zero.mp hitems]
    | succ depth => simp [mem_atDepth_succ] at hitems
  | array h ih =>
    cases depth with
    | zero => simp [array_mem_atDepth_zero.mp hitems]
    | succ depth =>
      obtain ⟨item, hitem, hinner⟩ := mem_atDepth_succ.mp hitems
      exact ih item hitem hinner

theorem Rectangular.exists_mem_atDepth (h : Rectangular shape value)
    (hdepth : depth < shape.length) : ∃ items, .array items ∈ value.narrowed.atDepth depth := by
  induction h generalizing depth with
  | number n => cases hdepth
  | empty =>
    obtain rfl : depth = 0 := Nat.lt_one_iff.mp hdepth
    exact ⟨_, array_mem_atDepth_zero.mpr rfl⟩
  | array h ih =>
    cases depth with
    | zero => exact ⟨_, array_mem_atDepth_zero.mpr rfl⟩
    | succ depth =>
      obtain ⟨items, hitems⟩ := ih _ List.mem_cons_self (Nat.lt_of_succ_lt_succ hdepth)
      exact ⟨items, mem_atDepth_succ.mpr ⟨_, List.mem_cons_self, hitems⟩⟩

/-! ## The law -/

structure WrittenBack (value : Json) (t : Tensor) : Prop where
  /-- The data is the value itself with single numbers, next to the shape. -/
  written : t.toJson =
    .object [("data", value.narrowed), ("shape", .array (t.shape.map .count))]
  lost_iff : ∀ n : Json.Number,
    (Json.number n).narrowed = .null ↔ ∃ negative, n.narrow = .infinite negative
  /-- An axis is the length of all lists that lie as deep in the data, and there are some. -/
  axes : ∀ depth n, t.shape[depth]? = some n ↔
    (∃ items, .array items ∈ value.narrowed.atDepth depth) ∧
      ∀ items, .array items ∈ value.narrowed.atDepth depth → items.length = n

/-- What is read from nested lists is written as the same lists of the same lengths at every place,
and the shape tells these lengths. -/
theorem a_read_value_is_written_back (value : Json) (t : Tensor) (h : ofNested value = .ok t) :
    WrittenBack value t := by
  obtain ⟨hrect, hdata⟩ := rectangular_of_ofNested h
  refine ⟨?_, Json.narrowed_number_eq_null_iff, fun depth n => ⟨fun hn => ⟨?_, ?_⟩, ?_⟩⟩
  · rw [toJson, nested, hdata, nest_of_rectangular hrect]
  · exact hrect.exists_mem_atDepth (List.getElem?_eq_some_iff.mp hn).1
  · intro items hitems
    exact Option.some.inj ((hrect.getElem?_of_mem_atDepth hitems).symm.trans hn)
  · rintro ⟨⟨items, hitems⟩, hlength⟩
    rw [hrect.getElem?_of_mem_atDepth hitems, hlength items hitems]

def faraway : Json.Number := .double (.ofWhole .double false (10 ^ 40)) (by decide +kernel)

/-- A one above the far number. -/
def farColumn : Json := .array [.array [.number (.whole 1)], .array [.number faraway]]

theorem a_far_number_is_written_as_null :
    ∃ t, ofNested farColumn = .ok t ∧ t.toJson = .object
      [("data", .array [.array [.single (.ofWhole .single false 1)], .array [.null]]),
        ("shape", .array [.count 2, .count 1])] := by
  have hrow : ∀ n : Json.Number, Rectangular [1] (.array [.number n]) := fun n =>
    .array (List.forall_mem_singleton.mpr (.number n))
  have hrect : Rectangular [2, 1] farColumn :=
    .array (List.forall_mem_cons.mpr ⟨hrow _, List.forall_mem_singleton.mpr (hrow _)⟩)
  obtain ⟨t, ht, hshape, _⟩ := ofNested_of_rectangular hrect
    (by simp [farColumn, places, volumeMax, Text.wordMax])
  have hback := a_read_value_is_written_back farColumn t ht
  have hone : (Json.Number.whole 1).narrow = .ofWhole .single false 1 := by decide +kernel
  have hlost : (Json.number faraway).narrowed = .null :=
    (hback.lost_iff faraway).mpr ⟨false, by decide +kernel⟩
  refine ⟨t, ht, ?_⟩
  rw [hback.written, hshape]
  simp [farColumn, Json.narrowed, hone, ← hlost]

end Tensor

end NetEditor
