-- What is read from rows of tokens. Rows are good or bad by their tokens, and reading ends at the
-- first bad one.
import NetEditor.Proofs.Lists
import NetEditor.Proofs.Sample.Tokens

namespace NetEditor.SampleText

variable {read : Reading} {text token : List Char} {tokens : List (List Char)} {x : Single}
  {xs : List Single} {w : Nat} {width : Option Nat} {index : Nat} {texts : List (List Char)}
  {matrix front back : List (List (List Char))} {bad : List (List Char)}
  {values : List (List Single)} {defect : SampleDefect} {t : Tensor}

/-! ## Tokens as numbers -/

/-- The token is read to this number, and the number is finite. -/
def Numeral (read : Reading) (token : List Char) (x : Single) : Prop :=
  read token = some x ∧ x.isFinite = true

theorem filter_eq_some_iff : (read token).filter Binary.isFinite = some x ↔ Numeral read token x :=
  Option.filter_eq_some_iff

/-- Whether a token is a number is found out by reading it. -/
instance (read : Reading) (token : List Char) : Decidable (∃ x, Numeral read token x) :=
  decidable_of_iff (((read token).filter Binary.isFinite).isSome = true) <|
    Option.isSome_iff_exists.trans (exists_congr fun _ => filter_eq_some_iff)

theorem number_of_numeral (h : Numeral read token x) : number read token = .ok x := by
  unfold number
  rw [filter_eq_some_iff.mpr h]

theorem number_of_not_numeral (h : ∀ x, ¬ Numeral read token x) :
    number read token = .error (.notNumeric (String.ofList token)) := by
  unfold number
  rw [Option.eq_none_iff_forall_ne_some.mpr fun x hx => h x (filter_eq_some_iff.mp hx)]

/-- Tokens are read to one list of numbers at most. -/
theorem numerals_unique {ys : List Single} (hx : List.Forall₂ (Numeral read) tokens xs)
    (hy : List.Forall₂ (Numeral read) tokens ys) : xs = ys := by
  refine List.right_unique_forall₂' ?_ hx hy
  intro token x y hx hy
  exact Option.some.inj (hx.1.symm.trans hy.1)

theorem finite_of_numerals (h : List.Forall₂ (Numeral read) tokens xs) :
    ∀ x ∈ xs, x.isFinite = true :=
  forall_right_of_forall₂ h fun _ _ hx => hx.2

theorem rowNumbers_of_numerals (h : List.Forall₂ (Numeral read) tokens xs) :
    rowNumbers read tokens = .ok xs := by
  induction h with
  | nil => rfl
  | cons hx _ ih =>
    unfold rowNumbers
    rw [number_of_numeral hx, ih]
    rfl

/-- Reading a row ends at the first token that is no number. -/
theorem rowNumbers_of_not_numeral {before after : List (List Char)}
    (hbefore : ∀ token ∈ before, ∃ x, Numeral read token x) (h : ∀ x, ¬ Numeral read token x) :
    rowNumbers read (before ++ token :: after) = .error (.notNumeric (String.ofList token)) := by
  induction before with
  | nil =>
    rw [List.nil_append]
    unfold rowNumbers
    rw [number_of_not_numeral h]
  | cons first before ih =>
    obtain ⟨⟨x, hx⟩, hbefore⟩ := List.forall_mem_cons.mp hbefore
    rw [List.cons_append]
    unfold rowNumbers
    rw [number_of_numeral hx, ih hbefore]
    rfl

/-! ## Single rows -/

/-- The row has tokens, this many of them, and all of them are numbers. -/
structure GoodRow (read : Reading) (w : Nat) (tokens : List (List Char)) : Prop where
  filled : tokens ≠ []
  even : tokens.length = w
  numeric : ∀ token ∈ tokens, ∃ x, Numeral read token x

/-- What is wrong with a row. Its tokens are looked at first, then whether it has any, and at last
whether it has as many as it should. -/
inductive BadRow (read : Reading) (index : Nat) (width : Option Nat) :
    List (List Char) → SampleDefect → Prop
  | token {before after : List (List Char)} {token : List Char}
      (hbefore : ∀ token ∈ before, ∃ x, Numeral read token x) (h : ∀ x, ¬ Numeral read token x) :
      BadRow read index width (before ++ token :: after) (.notNumeric (String.ofList token))
  | empty : BadRow read index width [] (.emptyRow index)
  | uneven {tokens : List (List Char)} {expected : Nat}
      (hnumeric : ∀ token ∈ tokens, ∃ x, Numeral read token x) (hne : tokens ≠ [])
      (hwidth : expected ∈ width) (h : tokens.length ≠ expected) :
      BadRow read index width tokens (.unevenRow index tokens.length expected)

theorem good_or_bad_row (read : Reading) (index : Nat) (width : Option Nat)
    (tokens : List (List Char)) :
    (∃ w, GoodRow read w tokens ∧ ∀ v ∈ width, v = w) ∨
      ∃ defect, BadRow read index width tokens defect := by
  rcases forall_or_first (fun token => ∃ x, Numeral read token x) tokens with
    hnumeric | ⟨before, token, after, rfl, hbefore, hbad⟩
  · by_cases hne : tokens = []
    · subst hne
      exact Or.inr ⟨_, .empty⟩
    · by_cases heven : ∀ v ∈ width, v = tokens.length
      · exact Or.inl ⟨tokens.length, ⟨hne, rfl, hnumeric⟩, heven⟩
      · push Not at heven
        obtain ⟨v, hv, huneven⟩ := heven
        exact Or.inr ⟨_, .uneven hnumeric hne hv huneven.symm⟩
  · exact Or.inr ⟨_, .token hbefore (not_exists.mp hbad)⟩

theorem row_of_good (h : GoodRow read w (Text.tokens separates text)) (hw : ∀ v ∈ width, v = w)
    (hxs : List.Forall₂ (Numeral read) (Text.tokens separates text) xs) :
    row read index width text = .ok xs := by
  have hlength : xs.length = w := hxs.length_eq.symm.trans h.even
  unfold row
  rw [rowNumbers_of_numerals hxs]
  cases xs with
  | nil => exact absurd (List.eq_nil_of_length_eq_zero hxs.length_eq) h.filled
  | cons x xs =>
    cases width with
    | none => rfl
    | some v =>
      dsimp only
      rw [if_pos (hlength.trans (hw v rfl).symm)]

theorem row_of_bad (h : BadRow read index width (Text.tokens separates text) defect) :
    row read index width text = .error defect := by
  unfold row
  generalize Text.tokens separates text = tokens at h
  cases h with
  | token hbefore hbad => rw [rowNumbers_of_not_numeral hbefore hbad]
  | empty => rfl
  | @uneven tokens expected hnumeric hne hwidth huneven =>
    obtain ⟨xs, hxs⟩ := exists_forall₂ hnumeric
    have hlength := hxs.length_eq
    obtain rfl := Option.mem_def.mp hwidth
    rw [rowNumbers_of_numerals hxs]
    cases xs with
    | nil => exact absurd (List.eq_nil_of_length_eq_zero hlength) hne
    | cons x xs =>
      dsimp only
      rw [if_neg (hlength ▸ huneven), hlength]

/-! ## All rows -/

/-- Every row has tokens, all rows have equally many, and all tokens are numbers. -/
def Grammatical (read : Reading) (matrix : List (List (List Char))) : Prop :=
  ∃ w, ∀ row ∈ matrix, GoodRow read w row

/-- This row is the first bad one after these, and this is wrong with it. Rows are counted from one,
and should be as wide as the first. -/
def FirstBad (read : Reading) (front : List (List (List Char))) (bad : List (List Char))
    (defect : SampleDefect) : Prop :=
  Grammatical read front ∧
    BadRow read (front.length + 1) (front.head?.map List.length) bad defect

/-- The rows of a text are all good, or one of them is the first bad one. -/
theorem grammatical_or_bad (read : Reading) (matrix : List (List (List Char))) :
    Grammatical read matrix ∨ ∃ front bad back defect,
      matrix = front ++ bad :: back ∧ FirstBad read front bad defect := by
  induction matrix using List.reverseRecOn with
  | nil => exact Or.inl ⟨0, List.forall_mem_nil _⟩
  | append_singleton init last ih =>
    rcases ih with ⟨w, hinit⟩ | ⟨front, bad, back, defect, rfl, hbad⟩
    · rcases good_or_bad_row read (init.length + 1) (init.head?.map List.length) last with
        ⟨v, hlast, hv⟩ | ⟨defect, hbad⟩
      · refine Or.inl ⟨v, List.forall_mem_append.mpr ⟨?_, List.forall_mem_singleton.mpr hlast⟩⟩
        cases init with
        | nil => exact List.forall_mem_nil _
        | cons first rest =>
          obtain rfl : w = v := (hinit first List.mem_cons_self).even.symm.trans (hv _ rfl)
          exact hinit
      · exact Or.inr ⟨init, last, [], defect, rfl, ⟨w, hinit⟩, hbad⟩
    · exact Or.inr ⟨front, bad, back ++ [last], defect, by simp, hbad⟩

theorem rows_of_good (h : ∀ tokens ∈ texts.map (Text.tokens separates), GoodRow read w tokens)
    (hw : ∀ v ∈ width, v = w)
    (hvalues : List.Forall₂ (List.Forall₂ (Numeral read)) (texts.map (Text.tokens separates))
      values) : rows read index width texts = .ok values := by
  induction texts generalizing index width values with
  | nil =>
    cases hvalues
    rfl
  | cons text rest ih =>
    rw [List.map_cons] at h hvalues
    cases hvalues with
    | @cons _ xs _ values hxs hrest =>
      obtain ⟨hfirst, h⟩ := List.forall_mem_cons.mp h
      have hnext : ∀ v ∈ some xs.length, v = w := by
        rintro v ⟨⟩
        exact hxs.length_eq.symm.trans hfirst.even
      unfold rows
      rw [row_of_good hfirst hw hxs]
      dsimp only
      rw [ih h hnext hrest]
      rfl

/-- Reading ends at the first bad row. After a good row the width is known, whether or not it was
known before. -/
theorem rows_of_bad (htexts : texts.map (Text.tokens separates) = front ++ bad :: back)
    (hfront : ∀ row ∈ front, GoodRow read w row) (hw : ∀ v ∈ width, v = w)
    (hbad : BadRow read (index + front.length) (width.or (front.head?.map List.length)) bad
      defect) : rows read index width texts = .error defect := by
  induction front generalizing texts index width with
  | nil =>
    cases texts with
    | nil => simp at htexts
    | cons text rest =>
      obtain ⟨rfl, _⟩ := List.cons.inj htexts
      rw [List.head?_nil, Option.map_none, Option.or_none, List.length_nil, Nat.add_zero] at hbad
      unfold rows
      rw [row_of_bad hbad]
  | cons first front ih =>
    cases texts with
    | nil => simp at htexts
    | cons text rest =>
      obtain ⟨rfl, hrest⟩ := List.cons.inj htexts
      obtain ⟨hfirst, hfront⟩ := List.forall_mem_cons.mp hfront
      obtain ⟨xs, hxs⟩ := exists_forall₂ hfirst.numeric
      have hlength : xs.length = w := hxs.length_eq.symm.trans hfirst.even
      have hwidth : width.or (some (Text.tokens separates text).length) = some xs.length := by
        rw [hfirst.even, hlength]
        cases width with
        | none => rfl
        | some v => rw [hw v rfl, Option.some_or]
      rw [List.head?_cons, Option.map_some, hwidth, List.length_cons, Nat.add_comm front.length,
        ← Nat.add_assoc] at hbad
      have hnext : ∀ v ∈ some xs.length, v = w := by
        rintro v ⟨⟩
        exact hlength
      unfold rows
      rw [row_of_good hfirst hw hxs]
      dsimp only
      rw [ih hrest hfront hnext hbad]
      rfl

end NetEditor.SampleText
