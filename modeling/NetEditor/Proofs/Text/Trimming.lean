-- The laws of trimming. What is left of a text starts and ends with no blank, and blanks around a
-- text make no difference to it.
import NetEditor.Text
import Mathlib.Data.List.DropRight

namespace NetEditor.Text

variable {text core front back : List Char}

/-- There is nothing in the text but blanks, if anything. -/
def AllBlank (text : List Char) : Prop := ∀ c ∈ text, isBlank c = true

instance (text : List Char) : Decidable (AllBlank text) :=
  List.decidableBAll (fun c => isBlank c = true) text

theorem allBlank_append : AllBlank (front ++ back) ↔ AllBlank front ∧ AllBlank back :=
  List.forall_mem_append

/-! ## One end -/

theorem dropWhile_eq_nil_iff : text.dropWhile isBlank = [] ↔ AllBlank text :=
  List.dropWhile_eq_nil_iff

theorem rdropWhile_eq_nil_iff : text.rdropWhile isBlank = [] ↔ AllBlank text :=
  List.rdropWhile_eq_nil_iff

/-- A front that is not all blank keeps what comes after it. -/
theorem dropWhile_append (h : ¬ AllBlank front) :
    (front ++ back).dropWhile isBlank = front.dropWhile isBlank ++ back := by
  rw [List.dropWhile_append, if_neg]
  simpa [AllBlank] using h

/-- A back that is not all blank keeps what comes before it. -/
theorem rdropWhile_append (h : ¬ AllBlank back) :
    (front ++ back).rdropWhile isBlank = front ++ back.rdropWhile isBlank := by
  have hreverse : ¬ AllBlank back.reverse := by simpa [AllBlank] using h
  unfold List.rdropWhile
  rw [List.reverse_append, dropWhile_append hreverse, List.reverse_append, List.reverse_reverse]

theorem rdropWhile_append_blank (h : AllBlank back) :
    (front ++ back).rdropWhile isBlank = front.rdropWhile isBlank := by
  unfold List.rdropWhile
  rw [List.reverse_append, List.dropWhile_append_of_pos (by simpa [AllBlank] using h)]

/-! ## Both ends -/

theorem trim_eq (text : List Char) : trim text = (text.dropWhile isBlank).rdropWhile isBlank := rfl

theorem trim_sublist (text : List Char) : (trim text).Sublist text :=
  (List.rdropWhile_prefix _ _).sublist.trans (List.dropWhile_sublist isBlank)

theorem trim_eq_nil_iff : trim text = [] ↔ AllBlank text := by
  rw [trim_eq, rdropWhile_eq_nil_iff]
  constructor
  · intro h
    by_contra hblank
    -- What is left of the text starts with a character that is not blank.
    have hne : text.dropWhile isBlank ≠ [] := fun heq => hblank (dropWhile_eq_nil_iff.mp heq)
    have hhead := List.head_dropWhile_not isBlank hne
    rw [h _ (List.head_mem hne)] at hhead
    cases hhead
  · intro h
    rw [dropWhile_eq_nil_iff.mpr h]
    exact List.forall_mem_nil _

theorem trim_append_left (h : AllBlank front) : trim (front ++ text) = trim text := by
  rw [trim_eq, List.dropWhile_append_of_pos h, ← trim_eq]

theorem trim_append_right (h : AllBlank back) : trim (text ++ back) = trim text := by
  by_cases hblank : AllBlank text
  · rw [trim_eq_nil_iff.mpr hblank, trim_eq_nil_iff.mpr (allBlank_append.mpr ⟨hblank, h⟩)]
  · rw [trim_eq, dropWhile_append hblank, rdropWhile_append_blank h, ← trim_eq]

/-- The text starts and ends with no blank. -/
structure Bare (text : List Char) : Prop where
  first : ∀ c ∈ text.head?, isBlank c = false
  last : ∀ c ∈ text.getLast?, isBlank c = false

theorem bare_trim (text : List Char) : Bare (trim text) := by
  constructor
  · intro c hc
    -- The first character that is left is the first one that the front end kept.
    obtain ⟨rest, hrest⟩ : trim text <+: text.dropWhile isBlank := List.rdropWhile_prefix _ _
    have hkept := List.head?_dropWhile_not isBlank text
    rw [← hrest, List.head?_append, Option.mem_def.mp hc] at hkept
    exact hkept
  · intro c hc
    have hne : (text.dropWhile isBlank).rdropWhile isBlank ≠ [] := by
      intro heq
      rw [trim_eq, heq] at hc
      cases hc
    have hlast := List.rdropWhile_last_not isBlank _ hne
    rw [trim_eq, List.getLast?_eq_some_getLast hne, Option.mem_some_iff] at hc
    rw [← hc]
    exact Bool.eq_false_iff.mpr hlast

theorem trim_of_bare (h : Bare text) : trim text = text := by
  have hfirst : text.dropWhile isBlank = text := by
    cases text with
    | nil => rfl
    | cons c rest => rw [List.dropWhile_cons, h.first c rfl, if_neg (by decide)]
  rw [trim_eq, hfirst, List.rdropWhile_eq_self_iff]
  intro hne
  rw [h.last _ (List.getLast?_eq_some_getLast hne)]
  decide

theorem trim_trim (text : List Char) : trim (trim text) = trim text :=
  trim_of_bare (bare_trim text)

/-- The text without the blanks around it. -/
def Trims (text core : List Char) : Prop :=
  Bare core ∧ ∃ front back, AllBlank front ∧ AllBlank back ∧ text = front ++ core ++ back

/-- The core of a text is what trimming leaves of it. -/
theorem trims_iff : Trims text core ↔ core = trim text := by
  constructor
  · rintro ⟨hbare, front, back, hfront, hback, rfl⟩
    rw [trim_append_right hback, trim_append_left hfront, trim_of_bare hbare]
  · rintro rfl
    refine ⟨bare_trim text, text.takeWhile isBlank, (text.dropWhile isBlank).rtakeWhile isBlank,
      fun c => List.mem_takeWhile_imp, fun c => List.mem_rtakeWhile_imp, ?_⟩
    rw [List.append_assoc, trim_eq, List.rdropWhile_append_rtakeWhile,
      List.takeWhile_append_dropWhile]

end NetEditor.Text
