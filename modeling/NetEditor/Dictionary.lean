-- Dictionaries: pairs of a key and a value in the order of their keys, one pair a key. A later
-- value for a key takes the place of the earlier one.

namespace NetEditor

abbrev Dictionary (α : Type) : Type := List (String × α)

namespace Dictionary

variable {α : Type}

def insert (key : String) (value : α) : Dictionary α → Dictionary α
  | [] => [(key, value)]
  | (k, v) :: rest =>
    if key = k then (key, value) :: rest
    else if key < k then (key, value) :: (k, v) :: rest
    else (k, v) :: insert key value rest

/-- Inserts the pairs in turn, so that the last value of a repeated key stays. -/
def ofPairs (pairs : List (String × α)) : Dictionary α :=
  pairs.foldl (fun d pair => insert pair.1 pair.2 d) []

def get? (key : String) (d : Dictionary α) : Option α := d.lookup key

@[simp] theorem get?_nil (key : String) : get? key ([] : Dictionary α) = none := rfl

theorem get?_insert_self (key : String) (value : α) (d : Dictionary α) :
    get? key (insert key value d) = some value := by
  induction d with
  | nil => simp [insert, get?]
  | cons pair rest ih =>
    obtain ⟨k, v⟩ := pair
    unfold insert
    split
    · simp [get?]
    · split
      · simp [get?]
      · rename_i h _
        have hb : (key == k) = false := by simp [h]
        unfold get? at ih ⊢
        simpa [hb, List.lookup_cons] using ih

theorem get?_insert_of_ne {key other : String} (h : other ≠ key) (value : α)
    (d : Dictionary α) : get? other (insert key value d) = get? other d := by
  have hb : (other == key) = false := by simp [h]
  induction d with
  | nil => simp [insert, get?, List.lookup_cons, hb]
  | cons pair rest ih =>
    obtain ⟨k, v⟩ := pair
    unfold insert
    split
    · rename_i hk
      subst hk
      simp [get?, List.lookup_cons, hb]
    · split
      · simp [get?, List.lookup_cons, hb]
      · unfold get? at ih ⊢
        simp only [List.lookup_cons]
        split <;> simp_all

theorem get?_foldl_insert_of_notMem {key : String} {pairs : List (String × α)}
    (h : key ∉ pairs.map Prod.fst) (d : Dictionary α) :
    get? key (pairs.foldl (fun d pair => insert pair.1 pair.2 d) d) = get? key d := by
  induction pairs generalizing d with
  | nil => rfl
  | cons pair rest ih =>
    rw [List.map_cons, List.mem_cons, not_or] at h
    rw [List.foldl_cons, ih h.2, get?_insert_of_ne h.1]

theorem get?_foldl_insert_of_mem {key : String} {value : α} {pairs : List (String × α)}
    (h : (pairs.map Prod.fst).Nodup) (hm : (key, value) ∈ pairs) (d : Dictionary α) :
    get? key (pairs.foldl (fun d pair => insert pair.1 pair.2 d) d) = some value := by
  induction pairs generalizing d with
  | nil => simp at hm
  | cons pair rest ih =>
    rw [List.map_cons, List.nodup_cons] at h
    rw [List.foldl_cons]
    rcases List.mem_cons.mp hm with rfl | hm
    · rw [get?_foldl_insert_of_notMem h.1, get?_insert_self]
    · exact ih h.2 hm _

/-- Where no key is repeated, each pair is found under its key. -/
theorem get?_ofPairs {key : String} {value : α} {pairs : List (String × α)}
    (h : (pairs.map Prod.fst).Nodup) (hm : (key, value) ∈ pairs) :
    get? key (ofPairs pairs) = some value := get?_foldl_insert_of_mem h hm []

end Dictionary

end NetEditor
