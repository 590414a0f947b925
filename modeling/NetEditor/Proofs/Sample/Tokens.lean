-- How the text of a sample is laid out: what its rows are, and what the tokens of a row. It is said
-- here without cutting anything, and then shown to be what cutting gives.
import NetEditor.Proofs.Text.Cutting
import NetEditor.Proofs.Text.Trimming
import NetEditor.Sample.Basic
import Mathlib.Data.List.Forall2

namespace NetEditor.SampleText

/-! ## The layout -/

/-- The tokens of a row. They stand between gaps of blanks and commas, and each is as long as it can
be. -/
inductive Tokens : List Char → List (List Char) → Prop
  | gap {row : List Char} (h : ∀ c ∈ row, separates c = true) : Tokens row []
  | token {gap token rest : List Char} {tokens : List (List Char)}
      (hgap : ∀ c ∈ gap, separates c = true) (hne : token ≠ [])
      (htoken : ∀ c ∈ token, separates c = false) (hend : ∀ c ∈ rest.head?, separates c = true)
      (hrest : Tokens rest tokens) : Tokens (gap ++ token ++ rest) (token :: tokens)

/-- The rows of a text. They stand between its semicolons. -/
def Rows (text : List Char) (rows : List (List Char)) : Prop :=
  rows ≠ [] ∧ (∀ row ∈ rows, ';' ∉ row) ∧ [';'].intercalate rows = text

/-- The text is not empty once it is trimmed, and these are its tokens then, row by row. -/
def Laid (text : List Char) (matrix : List (List (List Char))) : Prop :=
  ∃ core rows, Text.Trims text core ∧ core ≠ [] ∧ Rows core rows ∧
    List.Forall₂ Tokens rows matrix

variable {text row : List Char} {rows tokens : List (List Char)}
  {matrix : List (List (List Char))}

/-! ## Tokens -/

theorem tokens_tokens (row : List Char) : Tokens row (Text.tokens separates row) := by
  by_cases hall : ∀ c ∈ row, separates c = true
  · rw [Text.tokens_gap hall]
    exact .gap hall
  -- After the gap comes a token, up to the next separator, and what is left is shorter.
  · obtain ⟨c, more, hbody⟩ :=
      List.exists_cons_of_ne_nil fun h => hall (List.dropWhile_eq_nil_iff.mp h)
    have hc : separates c = false := by
      simpa [hbody] using List.head?_dropWhile_not separates row
    have hgap : ∀ c ∈ row.takeWhile separates, separates c = true :=
      fun c hmem => List.mem_takeWhile_imp hmem
    let token := c :: more.takeWhile fun c => !separates c
    let rest := more.dropWhile fun c => !separates c
    have htoken : ∀ c ∈ token, separates c = false :=
      List.forall_mem_cons.mpr ⟨hc, fun c hmem => by simpa using List.mem_takeWhile_imp hmem⟩
    have hend : ∀ c ∈ rest.head?, separates c = true := by
      intro c hhead
      simpa [rest, Option.mem_def.mp hhead] using
        List.head?_dropWhile_not (fun c => !separates c) more
    have hcut : row = row.takeWhile separates ++ token ++ rest := by
      rw [List.append_assoc, List.cons_append, List.takeWhile_append_dropWhile, ← hbody,
        List.takeWhile_append_dropWhile]
    have hshort : rest.length < row.length := by
      have hlength := congrArg List.length hcut
      simp only [List.length_append, token, List.length_cons] at hlength
      omega
    have hrow : Text.tokens separates row = token :: Text.tokens separates rest := by
      rw [hcut, List.append_assoc, Text.tokens_gap_append hgap,
        Text.tokens_run_append (List.cons_ne_nil _ _) htoken hend]
    rw [hrow, hcut]
    exact .token hgap (List.cons_ne_nil _ _) htoken hend (tokens_tokens rest)
termination_by row.length

theorem tokens_iff : Tokens row tokens ↔ tokens = Text.tokens separates row := by
  constructor
  · intro h
    induction h with
    | gap h => exact (Text.tokens_gap h).symm
    | token hgap hne htoken hend _ ih =>
      rw [List.append_assoc, Text.tokens_gap_append hgap,
        Text.tokens_run_append hne htoken hend, ← ih]
  · rintro rfl
    exact tokens_tokens row

/-- A token has a character of its own. -/
theorem Tokens.length_le (h : Tokens row tokens) : tokens.length ≤ row.length := by
  induction h with
  | gap => exact Nat.zero_le _
  | token _ hne _ _ _ ih =>
    have hpos := List.length_pos_iff.mpr hne
    simp only [List.length_append, List.length_cons]
    omega

/-! ## Rows -/

theorem rows_iff : Rows text rows ↔ rows = text.splitOn ';' := by
  constructor
  · rintro ⟨hne, hrows, rfl⟩
    exact (List.splitOn_intercalate ';' hrows hne).symm
  · rintro rfl
    exact ⟨List.splitOn_ne_nil _ _, fun _ => Text.notMem_of_mem_splitOn,
      List.intercalate_splitOn ';'⟩

/-! ## The tokens of all rows -/

/-- The tokens of each row of a text. -/
def tokenRows (text : List Char) : List (List (List Char)) :=
  (text.splitOn ';').map (Text.tokens separates)

theorem tokenRows_append_cons (head rest : List Char) :
    tokenRows (head ++ ';' :: rest) = tokenRows head ++ tokenRows rest := by
  unfold tokenRows
  rw [List.splitOn_append_cons_self, List.map_append]

theorem tokenRows_of_notMem (h : ';' ∉ text) : tokenRows text = [Text.tokens separates text] := by
  unfold tokenRows
  rw [List.splitOn_eq_singleton h, List.map_singleton]

theorem length_tokenRows (text : List Char) : (tokenRows text).length = text.count ';' + 1 := by
  unfold tokenRows
  rw [List.length_map, Text.length_splitOn]

theorem separates_of_isBlank {c : Char} (h : Text.isBlank c = true) : separates c = true := by
  rw [separates, h, Bool.true_or]

theorem semicolon_notMem {blanks : List Char} (h : Text.AllBlank blanks) : ';' ∉ blanks := by
  intro hmem
  have hblank := h _ hmem
  revert hblank
  decide

/-- Blanks around a text are in no token. A semicolon cuts the text in two shorter ones, each with
blanks on one side. -/
theorem tokenRows_padded {front back : List Char} (hfront : Text.AllBlank front)
    (hback : Text.AllBlank back) (text : List Char) :
    tokenRows (front ++ text ++ back) = tokenRows text := by
  by_cases hmem : ';' ∈ text
  · obtain ⟨head, rest, htext⟩ := List.append_of_mem hmem
    have hlength : text.length = head.length + (rest.length + 1) := by
      rw [htext, List.length_append, List.length_cons]
    have hhead := tokenRows_padded hfront (List.forall_mem_nil _) head
    have hrest := tokenRows_padded (List.forall_mem_nil _) hback rest
    rw [List.append_nil] at hhead
    rw [List.nil_append] at hrest
    rw [htext, List.append_assoc, List.append_assoc, List.cons_append, ← List.append_assoc,
      tokenRows_append_cons, tokenRows_append_cons, hhead, hrest]
  · have hpadded : ';' ∉ front ++ text ++ back := by
      simp only [List.mem_append, not_or]
      exact ⟨⟨semicolon_notMem hfront, hmem⟩, semicolon_notMem hback⟩
    rw [tokenRows_of_notMem hpadded, tokenRows_of_notMem hmem,
      Text.tokens_append_gap fun c hc => separates_of_isBlank (hback c hc),
      Text.tokens_gap_append fun c hc => separates_of_isBlank (hfront c hc)]
termination_by text.length

theorem tokenRows_trim (text : List Char) : tokenRows (Text.trim text) = tokenRows text := by
  obtain ⟨_, front, back, hfront, hback, htext⟩ := Text.trims_iff.mpr (Eq.refl (Text.trim text))
  conv_rhs => rw [htext]
  exact (tokenRows_padded hfront hback _).symm

/-- A text has no more tokens than characters. -/
theorem length_flatten_tokenRows_le (text : List Char) :
    (tokenRows text).flatten.length ≤ text.length := by
  by_cases hmem : ';' ∈ text
  · obtain ⟨head, rest, htext⟩ := List.append_of_mem hmem
    have hlength : text.length = head.length + (rest.length + 1) := by
      rw [htext, List.length_append, List.length_cons]
    have hhead := length_flatten_tokenRows_le head
    have hrest := length_flatten_tokenRows_le rest
    rw [htext, tokenRows_append_cons, List.flatten_append, ← htext, List.length_append]
    omega
  · rw [tokenRows_of_notMem hmem, List.flatten_singleton]
    exact (tokens_tokens text).length_le
termination_by text.length

theorem forall₂_tokens_iff :
    List.Forall₂ Tokens rows matrix ↔ matrix = rows.map (Text.tokens separates) := by
  have hfun : Tokens = fun row tokens => Text.tokens separates row = tokens := by
    funext row tokens
    exact propext (tokens_iff.trans eq_comm)
  rw [hfun, ← List.forall₂_map_left_iff, List.forall₂_eq_eq_eq]
  exact eq_comm

/-- The layout of a text is what cutting gives. Trimming matters only to a text of blanks, which has
none. -/
theorem laid_iff : Laid text matrix ↔ ¬ Text.AllBlank text ∧ matrix = tokenRows text := by
  rw [← Text.trim_eq_nil_iff, ← tokenRows_trim]
  constructor
  · rintro ⟨core, rows, hcore, hne, hrows, hmatrix⟩
    obtain rfl := Text.trims_iff.mp hcore
    obtain rfl := rows_iff.mp hrows
    exact ⟨hne, forall₂_tokens_iff.mp hmatrix⟩
  · rintro ⟨hne, rfl⟩
    exact ⟨_, _, Text.trims_iff.mpr rfl, hne, rows_iff.mpr rfl, forall₂_tokens_iff.mpr rfl⟩

end NetEditor.SampleText
