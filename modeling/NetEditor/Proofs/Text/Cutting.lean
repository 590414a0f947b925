-- The laws of cutting a text at separators: what lies between two of them, and the runs of other
-- characters, which are the tokens.
import NetEditor.Text

namespace NetEditor.Text

/-! ## Pieces -/

/-- A piece holds no separator. -/
theorem notMem_of_mem_splitOn {α : Type} [BEq α] [LawfulBEq α] {a : α} {text piece : List α}
    (h : piece ∈ text.splitOn a) : a ∉ piece := by
  induction text generalizing piece with
  | nil =>
    rw [List.splitOn_nil, List.mem_singleton] at h
    subst h
    exact List.not_mem_nil
  | cons c rest ih =>
    rw [List.splitOn_cons_eq_if_modifyHead] at h
    split at h
    · rcases List.mem_cons.mp h with rfl | h
      · exact List.not_mem_nil
      · exact ih h
    · rename_i hc
      cases hrest : rest.splitOn a with
      | nil => exact absurd hrest (List.splitOn_ne_nil a rest)
      | cons first more =>
        rw [hrest] at h ih
        rcases List.mem_cons.mp h with rfl | h
        · have hne : a ≠ c := fun heq => hc (by simp [heq])
          simpa [hne] using ih List.mem_cons_self
        · exact ih (List.mem_cons_of_mem _ h)

/-- There is one piece more than there are separators. -/
theorem length_splitOn {α : Type} [BEq α] (a : α) (text : List α) :
    (text.splitOn a).length = text.count a + 1 := by
  induction text with
  | nil => rfl
  | cons c rest ih =>
    rw [List.splitOn_cons_eq_if_modifyHead, List.count_cons]
    split
    · rw [List.length_cons, ih]
    · rw [List.length_modifyHead, ih, Nat.add_zero]

/-! ## Tokens -/

variable {p : Char → Bool} {row front back token rest : List Char} {c : Char}

theorem tokens_append_cons (h : p c = true) (front back : List Char) :
    tokens p (front ++ c :: back) = tokens p front ++ tokens p back := by
  unfold tokens
  rw [List.splitOnP_append_cons _ _ h, List.filter_append]

theorem tokens_gap_append (h : ∀ c ∈ front, p c = true) (row : List Char) :
    tokens p (front ++ row) = tokens p row := by
  induction front with
  | nil => rfl
  | cons c front ih =>
    rw [List.forall_mem_cons] at h
    exact (tokens_append_cons h.1 [] (front ++ row)).trans (ih h.2)

/-- There is no token where everything separates. -/
theorem tokens_gap (h : ∀ c ∈ row, p c = true) : tokens p row = [] := by
  have hrow := tokens_gap_append h []
  rwa [List.append_nil] at hrow

theorem tokens_append_gap (h : ∀ c ∈ back, p c = true) (row : List Char) :
    tokens p (row ++ back) = tokens p row := by
  cases back with
  | nil => rw [List.append_nil]
  | cons c back =>
    rw [List.forall_mem_cons] at h
    rw [tokens_append_cons h.1, tokens_gap h.2, List.append_nil]

/-- A run that is followed by a separator, or by nothing, is a token. -/
theorem tokens_run_append (hne : token ≠ []) (htoken : ∀ c ∈ token, p c = false)
    (hend : ∀ c ∈ rest.head?, p c = true) : tokens p (token ++ rest) = token :: tokens p rest := by
  have hrun : tokens p token = [token] := by
    unfold tokens
    rw [List.splitOnP_eq_singleton htoken]
    simp [hne]
  cases rest with
  | nil => rw [List.append_nil, hrun, tokens_gap (List.forall_mem_nil _)]
  | cons c rest =>
    have hc : p c = true := hend c rfl
    rw [tokens_append_cons hc, hrun, List.singleton_append]
    exact congrArg _ (tokens_append_cons hc [] rest).symm

end NetEditor.Text
