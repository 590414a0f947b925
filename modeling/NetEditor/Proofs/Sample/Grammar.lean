-- The law of reading a sample. Only the tokens of its rows decide what a text is read to, and of
-- all that is wrong with a text the first thing is told.
import NetEditor.Proofs.Sample.Rows

namespace NetEditor

/-- No axis is empty, and every element is finite. -/
structure Tensor.Solid (t : Tensor) : Prop where
  axes : ∀ n ∈ t.shape, n ≠ 0
  elements : ∀ x ∈ t.data, x.isFinite = true

namespace SampleText

variable {read : Reading} {text : List Char} {w : Nat} {matrix front back : List (List (List Char))}
  {bad : List (List Char)} {values : List (List Single)} {defect : SampleDefect} {t : Tensor}

/-! ## Shapes -/

/-- One row is a vector, and several rows are a matrix. -/
def shapeFor (rows w : Nat) : List Nat := if rows = 1 then [w] else [rows, w]

theorem shapeOf_eq (hne : values ≠ []) (hw : ∀ xs ∈ values, xs.length = w) :
    shapeOf values = shapeFor values.length w := by
  match values with
  | [] => exact absurd rfl hne
  | [xs] =>
    rw [← hw xs List.mem_cons_self]
    rfl
  | xs :: ys :: rest =>
    rw [← hw xs List.mem_cons_self]
    simp [shapeOf, shapeFor]

theorem volume_shapeFor (rows w : Nat) : volume (shapeFor rows w) = rows * w := by
  unfold shapeFor
  split
  · rename_i hone
    simp [volume, hone]
  · simp [volume]

theorem shapeFor_ne_zero {rows : Nat} (hrows : rows ≠ 0) (hw : w ≠ 0) :
    ∀ n ∈ shapeFor rows w, n ≠ 0 := by
  unfold shapeFor
  split <;> simp [hrows, hw]

theorem length_flatten (hw : ∀ xs ∈ values, xs.length = w) :
    values.flatten.length = values.length * w := by
  induction values with
  | nil => simp
  | cons xs rest ih =>
    obtain ⟨hxs, hrest⟩ := List.forall_mem_cons.mp hw
    rw [List.flatten_cons, List.length_append, hxs, ih hrest, List.length_cons, Nat.succ_mul,
      Nat.add_comm]

/-- Equally long rows fill a tensor, if it may span as many numbers as there are. -/
theorem fits_rows (hne : values ≠ []) (hpos : w ≠ 0) (hw : ∀ xs ∈ values, xs.length = w)
    (hsize : values.flatten.length ≤ Tensor.volumeMax) :
    Tensor.Fits (shapeFor values.length w) values.flatten := by
  have hrows : values.length ≠ 0 := fun h => hne (List.eq_nil_of_length_eq_zero h)
  have hvolume : values.flatten.length = volume (shapeFor values.length w) := by
    rw [length_flatten hw, volume_shapeFor]
  have hsolid : (shapeFor values.length w).filter (· ≠ 0) = shapeFor values.length w := by
    rw [List.filter_eq_self]
    simpa using shapeFor_ne_zero hrows hpos
  refine ⟨hvolume, ?_⟩
  rw [hsolid, ← hvolume]
  exact hsize

/-! ## Good texts and bad ones -/

theorem parseWith_of_blank (read : Reading) (h : Text.AllBlank text) :
    parseWith read text = .error .emptyText := by
  unfold parseWith
  dsimp only
  rw [if_pos (Text.trim_eq_nil_iff.mpr h)]

theorem parseWith_of_laid (hlaid : Laid text matrix) : parseWith read text =
    match rows read 1 none ((Text.trim text).splitOn ';') with
    | .error defect => .error defect
    | .ok values => (Tensor.ofData values.flatten (shapeOf values)).mapError .tensor := by
  unfold parseWith
  dsimp only
  rw [if_neg fun h => (laid_iff.mp hlaid).1 (Text.trim_eq_nil_iff.mp h)]
  cases rows read 1 none ((Text.trim text).splitOn ';') with
  | error => rfl
  | ok values =>
    dsimp only
    cases Tensor.ofData values.flatten (shapeOf values) <;> rfl

/-- The rows of the trimmed text have the tokens of the rows of the text. -/
theorem map_tokens_trim (hlaid : Laid text matrix) :
    ((Text.trim text).splitOn ';').map (Text.tokens separates) = matrix := by
  obtain ⟨_, rfl⟩ := laid_iff.mp hlaid
  exact tokenRows_trim text

theorem ne_nil_of_laid (hlaid : Laid text matrix) : matrix ≠ [] := by
  obtain ⟨_, rfl⟩ := laid_iff.mp hlaid
  intro hnil
  have hlength := length_tokenRows text
  simp [hnil] at hlength

/-- A text has a row, so the width of good rows is not zero. -/
theorem width_ne_zero (hlaid : Laid text matrix) (hgood : ∀ row ∈ matrix, GoodRow read w row) :
    w ≠ 0 := by
  obtain ⟨row, hrow⟩ := List.exists_mem_of_ne_nil _ (ne_nil_of_laid hlaid)
  rintro rfl
  exact (hgood row hrow).filled (List.eq_nil_of_length_eq_zero (hgood row hrow).even)

theorem length_of_numerals (hgood : ∀ row ∈ matrix, GoodRow read w row)
    (hvalues : List.Forall₂ (List.Forall₂ (Numeral read)) matrix values) :
    ∀ xs ∈ values, xs.length = w := by
  have hrows := (List.forall₂_and_left matrix values).mpr ⟨hgood, hvalues⟩
  exact forall_right_of_forall₂ hrows fun row xs h => h.2.length_eq.symm.trans h.1.even

theorem parseWith_of_good (hlaid : Laid text matrix) (hgood : ∀ row ∈ matrix, GoodRow read w row)
    (hvalues : List.Forall₂ (List.Forall₂ (Numeral read)) matrix values) :
    parseWith read text =
      (Tensor.ofData values.flatten (shapeFor matrix.length w)).mapError .tensor := by
  have hmap := map_tokens_trim hlaid
  have hlength := hvalues.length_eq
  have hne : values ≠ [] := by
    rintro rfl
    exact ne_nil_of_laid hlaid (List.eq_nil_of_length_eq_zero hlength)
  have hrows : rows read 1 none ((Text.trim text).splitOn ';') = .ok values :=
    rows_of_good (hmap ▸ hgood) (by simp) (hmap ▸ hvalues)
  rw [parseWith_of_laid hlaid, hrows]
  dsimp only
  rw [shapeOf_eq hne (length_of_numerals hgood hvalues), ← hlength]

theorem parseWith_of_bad (hlaid : Laid text (front ++ bad :: back))
    (hbad : FirstBad read front bad defect) : parseWith read text = .error defect := by
  obtain ⟨⟨w, hfront⟩, hbad⟩ := hbad
  have hrows : rows read 1 none ((Text.trim text).splitOn ';') = .error defect := by
    refine rows_of_bad (map_tokens_trim hlaid) hfront (by simp) ?_
    rwa [Option.none_or, Nat.add_comm]
  rw [parseWith_of_laid hlaid, hrows]

theorem exists_values (hgood : ∀ row ∈ matrix, GoodRow read w row) :
    ∃ values, List.Forall₂ (List.Forall₂ (Numeral read)) matrix values :=
  exists_forall₂ fun row hrow => exists_forall₂ (hgood row hrow).numeric

theorem blank_or_good_or_bad (read : Reading) (text : List Char) :
    Text.AllBlank text ∨ (∃ matrix, Laid text matrix ∧ Grammatical read matrix) ∨
      ∃ front bad back defect,
        Laid text (front ++ bad :: back) ∧ FirstBad read front bad defect := by
  by_cases hblank : Text.AllBlank text
  · exact Or.inl hblank
  · have hlaid : Laid text (tokenRows text) := laid_iff.mpr ⟨hblank, rfl⟩
    rcases grammatical_or_bad read (tokenRows text) with
      hgood | ⟨front, bad, back, defect, heq, hbad⟩
    · exact Or.inr (Or.inl ⟨_, hlaid, hgood⟩)
    · exact Or.inr (Or.inr ⟨front, bad, back, defect, heq ▸ hlaid, hbad⟩)

/-! ## What a text is read to -/

/-- The rows are good, and the tensor has as many rows and columns, and their numbers row by row. -/
structure ReadsTo (read : Reading) (matrix : List (List (List Char))) (t : Tensor) : Prop where
  shape : ∃ w, (∀ row ∈ matrix, GoodRow read w row) ∧ t.shape = shapeFor matrix.length w
  elements : List.Forall₂ (Numeral read) matrix.flatten t.data

theorem parseWith_eq_ok_iff :
    parseWith read text = .ok t ↔ ∃ matrix, Laid text matrix ∧ ReadsTo read matrix t := by
  constructor
  · intro h
    rcases blank_or_good_or_bad read text with
      hblank | ⟨matrix, hlaid, w, hgood⟩ | ⟨front, bad, back, defect, hlaid, hbad⟩
    · rw [parseWith_of_blank read hblank] at h
      cases h
    · obtain ⟨values, hvalues⟩ := exists_values hgood
      rw [parseWith_of_good hlaid hgood hvalues] at h
      cases hdata : Tensor.ofData values.flatten (shapeFor matrix.length w) with
      | error fault =>
        rw [hdata] at h
        cases h
      | ok t' =>
        rw [hdata] at h
        obtain rfl : t' = t := Except.ok.inj h
        obtain ⟨hshape, helements⟩ := Tensor.of_ofData_ok hdata
        exact ⟨matrix, hlaid, ⟨w, hgood, hshape⟩, helements ▸ List.rel_flatten hvalues⟩
    · rw [parseWith_of_bad hlaid hbad] at h
      cases h
  · rintro ⟨matrix, hlaid, ⟨w, hgood, hshape⟩, helements⟩
    obtain ⟨values, hvalues⟩ := exists_values hgood
    have hdata : values.flatten = t.data :=
      numerals_unique (List.rel_flatten hvalues) helements
    rw [parseWith_of_good hlaid hgood hvalues, hdata, ← hshape, Tensor.ofData_of_fits t.fits]
    rfl

/-- Whatever reads the tokens, a text that is read makes a solid tensor. -/
theorem solid_of_parseWith (h : parseWith read text = .ok t) : t.Solid := by
  obtain ⟨matrix, hlaid, ⟨w, hgood, hshape⟩, helements⟩ := parseWith_eq_ok_iff.mp h
  have hrows : matrix.length ≠ 0 :=
    fun heq => ne_nil_of_laid hlaid (List.eq_nil_of_length_eq_zero heq)
  refine ⟨?_, finite_of_numerals helements⟩
  rw [hshape]
  exact shapeFor_ne_zero hrows (width_ne_zero hlaid hgood)

/-- A text in good order is read, unless it has more tokens than a tensor may span. -/
theorem exists_parseWith_of_good (hlaid : Laid text matrix) (hgood : Grammatical read matrix)
    (hsize : text.length ≤ Tensor.volumeMax) : ∃ t, parseWith read text = .ok t := by
  obtain ⟨w, hgood⟩ := hgood
  obtain ⟨values, hvalues⟩ := exists_values hgood
  have hrows := length_of_numerals hgood hvalues
  have hlength := hvalues.length_eq
  have hne : values ≠ [] := by
    rintro rfl
    exact ne_nil_of_laid hlaid (List.eq_nil_of_length_eq_zero hlength)
  have hfew : values.flatten.length ≤ text.length := by
    have htokens := length_flatten_tokenRows_le text
    obtain ⟨_, rfl⟩ := laid_iff.mp hlaid
    have hflatten : List.Forall₂ (Numeral read) _ values.flatten := List.rel_flatten hvalues
    rwa [hflatten.length_eq] at htokens
  have hfits := fits_rows hne (width_ne_zero hlaid hgood) hrows (Nat.le_trans hfew hsize)
  refine ⟨⟨_, _, hfits⟩, ?_⟩
  rw [parseWith_of_good hlaid hgood hvalues, hlength, Tensor.ofData_of_fits hfits]
  rfl

/-! ## Why a text is not read -/

/-- Why a text is not read: there is nothing in it, or it has a first bad row. -/
inductive Refused (read : Reading) (text : List Char) : SampleDefect → Prop
  | blank (h : Text.AllBlank text) : Refused read text .emptyText
  | row {front back : List (List (List Char))} {bad : List (List Char)} {defect : SampleDefect}
      (hlaid : Laid text (front ++ bad :: back)) (hbad : FirstBad read front bad defect) :
      Refused read text defect

theorem parseWith_of_refused (h : Refused read text defect) :
    parseWith read text = .error defect := by
  cases h with
  | blank hblank => exact parseWith_of_blank read hblank
  | row hlaid hbad => exact parseWith_of_bad hlaid hbad

theorem parseWith_eq_error_iff (hsize : text.length ≤ Tensor.volumeMax) :
    parseWith read text = .error defect ↔ Refused read text defect := by
  refine ⟨fun h => ?_, parseWith_of_refused⟩
  rcases blank_or_good_or_bad read text with
    hblank | ⟨matrix, hlaid, hgood⟩ | ⟨front, bad, back, defect', hlaid, hbad⟩
  · obtain rfl := Except.error.inj ((parseWith_of_blank read hblank).symm.trans h)
    exact .blank hblank
  · obtain ⟨t, ht⟩ := exists_parseWith_of_good hlaid hgood hsize
    cases ht.symm.trans h
  · obtain rfl := Except.error.inj ((parseWith_of_bad hlaid hbad).symm.trans h)
    exact .row hlaid hbad

/-! ## The law -/

structure ReadByTokens (read : Reading) (text : List Char) : Prop where
  /-- A text is read exactly if each of its rows has tokens, all rows have equally many, and each
  token is a finite number. -/
  accepted_iff : (∃ t, parseWith read text = .ok t) ↔
    ∃ matrix, Laid text matrix ∧ Grammatical read matrix
  /-- The tensor that it is read to has the numbers of its tokens, row by row. -/
  value_iff : ∀ t, parseWith read text = .ok t ↔
    ∃ matrix, Laid text matrix ∧ ReadsTo read matrix t
  /-- Texts with the same tokens come to the same. -/
  tokens_decide : ∀ other matrix, Laid text matrix → Laid other matrix →
    parseWith read other = parseWith read text
  /-- What is told of a text that is not read is that it is blank, or else what is wrong with its
  first bad row. -/
  refused_iff : ∀ defect, parseWith read text = .error defect ↔ Refused read text defect
  /-- What comes after the semicolon that ends the first bad row has no influence. -/
  rest_ignored : ∀ head rest front bad back defect, text = head ++ ';' :: rest →
    Laid text (front ++ bad :: back) → front.length = head.count ';' →
    FirstBad read front bad defect →
    ∀ other, parseWith read (head ++ ';' :: other) = .error defect
  always_fits : ∀ fault, parseWith read text ≠ .error (.tensor fault)

theorem parseWith_of_tokens {other : List Char} (htext : Laid text matrix)
    (hother : Laid other matrix) : parseWith read other = parseWith read text := by
  rcases grammatical_or_bad read matrix with ⟨w, hgood⟩ | ⟨front, bad, back, defect, rfl, hbad⟩
  · obtain ⟨values, hvalues⟩ := exists_values hgood
    rw [parseWith_of_good htext hgood hvalues, parseWith_of_good hother hgood hvalues]
  · rw [parseWith_of_bad htext hbad, parseWith_of_bad hother hbad]

/-- The rows before a semicolon are the same whatever comes after it. -/
theorem laid_of_head {head rest : List Char}
    (hlaid : Laid (head ++ ';' :: rest) (front ++ bad :: back))
    (hcount : front.length = head.count ';') (other : List Char) :
    Laid (head ++ ';' :: other) (front ++ bad :: tokenRows other) := by
  have hrows := (laid_iff.mp hlaid).2
  rw [tokenRows_append_cons, List.append_cons] at hrows
  have hlength : (front ++ [bad]).length = (tokenRows head).length := by
    rw [length_tokenRows, List.length_append, hcount, List.length_singleton]
  obtain ⟨hhead, _⟩ := List.append_inj hrows hlength
  refine laid_iff.mpr ⟨?_, ?_⟩
  · intro hblank
    exact semicolon_notMem hblank (List.mem_append_right _ List.mem_cons_self)
  · rw [tokenRows_append_cons, ← hhead, List.append_assoc, List.singleton_append]

theorem Refused.ne_tensor (h : Refused read text defect) (fault : Tensor.Fault) :
    defect ≠ .tensor fault := by
  cases h with
  | blank => simp
  | row _ hbad =>
    obtain ⟨_, hbad⟩ := hbad
    cases hbad <;> simp

/-- Whatever reads the tokens of a text, the text is read by the grammar of its rows of tokens, and
not read for the first thing that is against it. A text is never so long that its numbers would be
too many. -/
theorem a_text_is_read_by_its_rows_of_tokens (read : Reading) (text : List Char)
    (hsize : text.length ≤ Tensor.volumeMax) : ReadByTokens read text where
  accepted_iff := by
    constructor
    · rintro ⟨t, ht⟩
      obtain ⟨matrix, hlaid, ⟨w, hgood, _⟩, _⟩ := parseWith_eq_ok_iff.mp ht
      exact ⟨matrix, hlaid, w, hgood⟩
    · rintro ⟨matrix, hlaid, hgood⟩
      exact exists_parseWith_of_good hlaid hgood hsize
  value_iff _ := parseWith_eq_ok_iff
  tokens_decide _ _ := parseWith_of_tokens
  refused_iff _ := parseWith_eq_error_iff hsize
  rest_ignored := by
    rintro head rest front bad back defect rfl hlaid hcount hbad other
    exact parseWith_of_bad (laid_of_head hlaid hcount other) hbad
  always_fits fault h := ((parseWith_eq_error_iff hsize).mp h).ne_tensor fault rfl

theorem a_short_row_is_told_whatever_follows :
    let head := " 1, 2;3 ".toList
    let text := head ++ ';' :: "x".toList
    text.length ≤ Tensor.volumeMax ∧ ReadByTokens typed text ∧
      Laid text ([["1".toList, "2".toList]] ++ ["3".toList] :: [["x".toList]]) ∧
      ∀ other, parse (head ++ ';' :: other) = .error (.unevenRow 2 1 2) := by
  intro head text
  have hsize : text.length ≤ Tensor.volumeMax := by decide +kernel
  have hlaw := a_text_is_read_by_its_rows_of_tokens typed text hsize
  have hlaid : Laid text ([["1".toList, "2".toList]] ++ ["3".toList] :: [["x".toList]]) :=
    laid_iff.mpr ⟨by decide +kernel, by decide +kernel⟩
  have hfirst : Grammatical typed [["1".toList, "2".toList]] :=
    ⟨2, List.forall_mem_singleton.mpr ⟨by decide, rfl, by decide +kernel⟩⟩
  have hbad : FirstBad typed [["1".toList, "2".toList]] ["3".toList] (.unevenRow 2 1 2) :=
    ⟨hfirst, .uneven (by decide +kernel) (by decide) rfl (by decide)⟩
  exact ⟨hsize, hlaw, hlaid, hlaw.rest_ignored head _ _ _ _ _ rfl hlaid (by decide +kernel) hbad⟩

end SampleText

end NetEditor
