-- The laws of tensors that are written as nested lists and read back. An empty list has no items
-- to show the axes behind it, so of a shape only the part up to its first empty axis comes back;
-- the elements come back as they were.
import NetEditor.Proofs.Conversion
import NetEditor.Tensor.Nested

namespace NetEditor.Tensor

variable {shape : List Nat} {data : List Single}

/-! ## Shapes -/

/-- The shape cut off right after its first empty axis. -/
def cutAtEmpty (shape : List Nat) : List Nat := shape.take (shape.findIdx (· = 0) + 1)

@[simp] theorem cutAtEmpty_nil : cutAtEmpty [] = [] := rfl

@[simp] theorem cutAtEmpty_zero (rest : List Nat) : cutAtEmpty (0 :: rest) = [0] := by
  simp [cutAtEmpty, List.findIdx_cons]

@[simp] theorem cutAtEmpty_succ (n : Nat) (rest : List Nat) :
    cutAtEmpty ((n + 1) :: rest) = (n + 1) :: cutAtEmpty rest := by
  simp [cutAtEmpty, List.findIdx_cons]

theorem volume_cutAtEmpty (shape : List Nat) : volume (cutAtEmpty shape) = volume shape := by
  induction shape with
  | nil => rfl
  | cons n rest ih =>
    cases n with
    | zero => simp [volume]
    | succ n => simp [volume, ih]

theorem volume_filter_pos (shape : List Nat) : 0 < volume (shape.filter (· ≠ 0)) := by
  induction shape with
  | nil => exact Nat.one_pos
  | cons n rest ih =>
    cases n with
    | zero => simpa using ih
    | succ n => simpa [volume] using ih

/-- The axes that are kept span no more than all of them. -/
theorem volume_filter_cutAtEmpty_le (shape : List Nat) :
    volume ((cutAtEmpty shape).filter (· ≠ 0)) ≤ volume (shape.filter (· ≠ 0)) := by
  induction shape with
  | nil => exact Nat.le_refl _
  | cons n rest ih =>
    cases n with
    | zero => simpa [volume] using Nat.one_le_of_lt (volume_filter_pos rest)
    | succ n => simpa [volume] using Nat.mul_le_mul_left (n + 1) ih

theorem fits_cutAtEmpty (h : Fits shape data) : Fits (cutAtEmpty shape) data :=
  ⟨h.1.trans (volume_cutAtEmpty shape).symm,
    Nat.le_trans (volume_filter_cutAtEmpty_le shape) h.2⟩

/-- Only an axis behind an empty one is ever cut off. -/
theorem cutAtEmpty_eq_self (h : ∀ n ∈ shape.dropLast, n ≠ 0) : cutAtEmpty shape = shape := by
  induction shape with
  | nil => rfl
  | cons n rest ih =>
    cases rest with
    | nil => cases n <;> simp
    | cons m rest =>
      rw [List.dropLast_cons_cons] at h
      obtain ⟨k, rfl⟩ := Nat.exists_eq_add_one_of_ne_zero (h n List.mem_cons_self)
      rw [cutAtEmpty_succ, ih fun j hj => h j (List.mem_cons_of_mem _ hj)]

/-! ## Runs of elements -/

theorem length_chunks (count size : Nat) (data : List Single) :
    (chunks count size data).length = count := by
  induction count generalizing data with
  | zero => rfl
  | succ count ih => simp [chunks, ih]

theorem length_of_mem_chunks {count size : Nat} {run : List Single}
    (hlen : data.length = count * size) (h : run ∈ chunks count size data) : run.length = size := by
  induction count generalizing data with
  | zero => simp [chunks] at h
  | succ count ih =>
    rw [Nat.succ_mul] at hlen
    rcases List.mem_cons.mp h with rfl | h
    · rw [List.length_take]
      omega
    · apply ih _ h
      rw [List.length_drop]
      omega

theorem flatten_chunks {count size : Nat} (hlen : data.length = count * size) :
    (chunks count size data).flatten = data := by
  induction count generalizing data with
  | zero =>
    rw [Nat.zero_mul] at hlen
    simp [chunks, List.eq_nil_of_length_eq_zero hlen]
  | succ count ih =>
    have hrest : (data.drop size).length = count * size := by
      rw [List.length_drop, hlen, Nat.succ_mul]
      omega
    rw [chunks, List.flatten_cons, ih hrest, List.take_append_drop]

/-! ## Reading what was written -/

/-- The spine shows the shape up to its first empty axis, whatever the elements are. -/
theorem spine_nest (shape : List Nat) (data : List Single) :
    spine (nest shape data) = cutAtEmpty shape := by
  induction shape generalizing data with
  | nil =>
    unfold nest Json.single
    split <;> rfl
  | cons n rest ih =>
    cases n with
    | zero => simp [nest, chunks, spine]
    | succ n => simp [nest, chunks, spine, length_chunks, ih]

theorem collectItems_map {shape : List Nat} {write : List Single → Json} {runs : List (List Single)}
    (h : ∀ run ∈ runs, collect shape (write run) = .ok run) :
    collectItems shape (runs.map write) = .ok runs.flatten := by
  induction runs with
  | nil => rw [List.map_nil, collectItems, List.flatten_nil]
  | cons run rest ih =>
    have hrest := ih fun other ho => h other (List.mem_cons_of_mem _ ho)
    rw [List.map_cons, collectItems, h run List.mem_cons_self, hrest, List.flatten_cons]
    rfl

/-- The elements come back in order. The induction goes down the axes: below each of them lie runs
that fill the axes behind it. -/
theorem collect_nest (hlen : data.length = volume shape) (hfin : ∀ x ∈ data, x.isFinite = true) :
    collect (cutAtEmpty shape) (nest shape data) = .ok data := by
  induction shape generalizing data with
  | nil =>
    obtain ⟨x, rfl⟩ := List.length_eq_one_iff.mp hlen
    have hx := hfin x List.mem_cons_self
    simp [nest, Json.single, hx, collect, Json.Number.toDouble, Binary.narrow_widen]
  | cons n rest ih =>
    cases n with
    | zero =>
      have hnil : data = [] := by
        rw [volume, Nat.zero_mul] at hlen
        exact List.eq_nil_of_length_eq_zero hlen
      simp [hnil, nest, chunks, collect, collectItems]
    | succ n =>
      rw [volume] at hlen
      have hruns : ∀ run ∈ chunks (n + 1) (volume rest) data,
          collect (cutAtEmpty rest) (nest rest run) = .ok run := by
        intro run hrun
        apply ih (length_of_mem_chunks hlen hrun)
        intro x hx
        apply hfin
        rw [← flatten_chunks hlen]
        exact List.mem_flatten.mpr ⟨run, hrun, hx⟩
      have hitems := collectItems_map hruns
      rw [flatten_chunks hlen] at hitems
      simp [nest, collect, length_chunks, hitems]

theorem ofNested_nested (t : Tensor) (hfin : ∀ x ∈ t.data, x.isFinite = true) :
    ofNested t.nested = .ok ⟨cutAtEmpty t.shape, t.data, fits_cutAtEmpty t.fits⟩ := by
  unfold ofNested nested
  rw [spine_nest, collect_nest t.size_eq_volume hfin]
  exact ofData_of_fits _

/-! ## The laws -/

/-- The data that is written for a tensor of finite numbers reads back to the same elements, in a
shape cut off after its first empty axis. Unless an axis before the last is empty, the very tensor
comes back. -/
theorem a_written_tensor_reads_back (t : Tensor) (hfin : ∀ x ∈ t.data, x.isFinite = true) :
    ∃ data shape back, t.toJson = .object [("data", data), ("shape", shape)] ∧
      ofNested data = .ok back ∧ back.data = t.data ∧ back.shape = cutAtEmpty t.shape ∧
      ((∀ n ∈ t.shape.dropLast, n ≠ 0) → back = t) := by
  refine ⟨t.nested, _, _, rfl, ofNested_nested t hfin, rfl, rfl, fun hshape => ?_⟩
  have hcut := cutAtEmpty_eq_self hshape
  obtain ⟨shape, data, fits⟩ := t
  simp only [Tensor.mk.injEq, and_true]
  exact hcut

/-- Two rows without elements, each as wide as three empty columns: the columns are cut off. -/
def emptyRows : Tensor := ⟨[2, 0, 3], [], by decide⟩

/-- The quotient of one by three and the negative zero in a column. -/
def column : Tensor := ⟨[2, 1], [.ofRatio .single false 1 3, .zero .single true], by decide⟩

theorem a_column_and_empty_rows_read_back :
    (∃ data shape, column.toJson = .object [("data", data), ("shape", shape)] ∧
      ofNested data = .ok column) ∧
    ∃ data shape back, emptyRows.toJson = .object [("data", data), ("shape", shape)] ∧
      ofNested data = .ok back ∧ back.shape = [2, 0] ∧ back.data = [] := by
  obtain ⟨data, shape, back, hjson, hread, _, _, heq⟩ :=
    a_written_tensor_reads_back column (by decide +kernel)
  obtain ⟨data', shape', back', hjson', hread', hdata', hshape', _⟩ :=
    a_written_tensor_reads_back emptyRows (by decide)
  exact ⟨⟨data, shape, hjson, heq (by decide) ▸ hread⟩,
    data', shape', back', hjson', hread', hshape', hdata'⟩

end NetEditor.Tensor
