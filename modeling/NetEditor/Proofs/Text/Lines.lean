-- The laws of the lines of a text. Trimming takes the blank lines at the two ends of a text, and
-- nothing of the lines between them but blanks.
import NetEditor.Proofs.Text.Cutting
import NetEditor.Proofs.Text.Trimming

namespace NetEditor.Text

variable {text line first last : List Char} {ls before init rest after : List (List Char)}

/-- Lines one after the other, with a line end between any two. -/
def join (ls : List (List Char)) : List Char := ['\n'].intercalate ls

theorem join_splitOn (text : List Char) : join (text.splitOn '\n') = text :=
  List.intercalate_splitOn '\n'

theorem join_singleton (line : List Char) : join [line] = line := List.intercalate_singleton

theorem join_cons (hne : rest ≠ []) : join (line :: rest) = line ++ '\n' :: join rest := by
  unfold join
  rw [List.intercalate_cons_of_ne_nil hne, List.append_assoc, List.singleton_append]

theorem join_append (hbefore : before ≠ []) (hafter : after ≠ []) :
    join (before ++ after) = join before ++ '\n' :: join after := by
  induction before with
  | nil => exact absurd rfl hbefore
  | cons line rest ih =>
    by_cases hrest : rest = []
    · subst hrest
      rw [join_singleton, List.singleton_append, join_cons hafter]
    · rw [List.cons_append, join_cons (List.append_ne_nil_of_left_ne_nil hrest after), ih hrest,
        join_cons hrest, List.append_assoc, List.cons_append]

/-! ## Blank lines at the ends -/

theorem allBlank_join (h : ∀ line ∈ ls, AllBlank line) : AllBlank (join ls) := by
  induction ls with
  | nil => exact List.forall_mem_nil _
  | cons line rest ih =>
    obtain ⟨hline, hrest⟩ := List.forall_mem_cons.mp h
    by_cases hne : rest = []
    · subst hne
      rwa [join_singleton]
    · rw [join_cons hne]
      exact allBlank_append.mpr ⟨hline, List.forall_mem_cons.mpr ⟨by decide, ih hrest⟩⟩

theorem trim_join_left (h : ∀ line ∈ before, AllBlank line) (ls : List (List Char)) :
    trim (join (before ++ ls)) = trim (join ls) := by
  have hbefore := allBlank_join h
  by_cases hne : before = []
  · rw [hne, List.nil_append]
  by_cases hls : ls = []
  · rw [hls, List.append_nil, trim_eq_nil_iff.mpr hbefore]
    rfl
  · have hfront : AllBlank (join before ++ ['\n']) :=
      allBlank_append.mpr ⟨hbefore, List.forall_mem_singleton.mpr (by decide)⟩
    rw [join_append hne hls, List.append_cons, trim_append_left hfront]

theorem trim_join_right (h : ∀ line ∈ after, AllBlank line) (ls : List (List Char)) :
    trim (join (ls ++ after)) = trim (join ls) := by
  have hafter := allBlank_join h
  by_cases hne : after = []
  · rw [hne, List.append_nil]
  by_cases hls : ls = []
  · rw [hls, List.nil_append, trim_eq_nil_iff.mpr hafter]
    rfl
  · have hback : AllBlank ('\n' :: join after) := List.forall_mem_cons.mpr ⟨by decide, hafter⟩
    rw [join_append hls hne, trim_append_right hback]

/-! ## The lines between them -/

theorem trim_dropReturn (line : List Char) : trim (dropReturn line) = trim line := by
  unfold dropReturn
  split
  · rename_i hlast
    have hblank : AllBlank ['\r'] := List.forall_mem_singleton.mpr (by decide)
    conv_rhs => rw [← List.dropLast_append_getLast? '\r' hlast]
    rw [trim_append_right hblank]
  · rfl

theorem trim_dropWhile (line : List Char) : trim (line.dropWhile isBlank) = trim line := by
  rw [trim_eq, List.dropWhile_idempotent, ← trim_eq]

theorem trim_rdropWhile (line : List Char) : trim (line.rdropWhile isBlank) = trim line := by
  have hback : AllBlank (line.rtakeWhile isBlank) := fun c => List.mem_rtakeWhile_imp
  have hline : line.rdropWhile isBlank ++ line.rtakeWhile isBlank = line :=
    List.rdropWhile_append_rtakeWhile
  conv_rhs => rw [← hline]
  rw [trim_append_right hback]

theorem dropWhile_join (h : ¬ AllBlank first) (rest : List (List Char)) :
    (join (first :: rest)).dropWhile isBlank = join (first.dropWhile isBlank :: rest) := by
  by_cases hne : rest = []
  · subst hne
    rw [join_singleton, join_singleton]
  · rw [join_cons hne, join_cons hne, dropWhile_append h]

theorem rdropWhile_join (h : ¬ AllBlank last) (init : List (List Char)) :
    (join (init ++ [last])).rdropWhile isBlank = join (init ++ [last.rdropWhile isBlank]) := by
  by_cases hne : init = []
  · subst hne
    rw [List.nil_append, List.nil_append, join_singleton, join_singleton]
  · rw [join_append hne (List.cons_ne_nil _ _), join_append hne (List.cons_ne_nil _ _),
      join_singleton, join_singleton, List.append_cons, rdropWhile_append h, ← List.append_cons]

/-- The first line is trimmed at its front, and the last one at its back. -/
theorem trim_join (hfirst : ¬ AllBlank first) (hlast : ¬ AllBlank last)
    (init : List (List Char)) : trim (join (first :: init ++ [last])) =
      join (first.dropWhile isBlank :: init ++ [last.rdropWhile isBlank]) := by
  rw [trim_eq, List.cons_append, dropWhile_join hfirst, ← List.cons_append, rdropWhile_join hlast]

/-- A text that ends in some line, and not in a line end, has just the lines it is made of. -/
theorem lines_join (hinit : ∀ line ∈ init, '\n' ∉ line) (hlast : '\n' ∉ last) (hne : last ≠ []) :
    lines (join (init ++ [last])) = init.map dropReturn ++ [last] := by
  have hparts : (join (init ++ [last])).splitOn '\n' = init ++ [last] := by
    refine List.splitOn_intercalate '\n' ?_ (List.append_ne_nil_of_right_ne_nil _ (by simp))
    exact List.forall_mem_append.mpr ⟨hinit, List.forall_mem_singleton.mpr hlast⟩
  unfold lines
  dsimp only
  rw [hparts, List.dropLast_concat, List.getLast?_concat]
  simp [hne]

/-- The first line and the last one are not blank. -/
def Framed (ls : List (List Char)) : Prop :=
  ∃ first rest init last, ls = first :: rest ∧ ls = init ++ [last] ∧ ¬ AllBlank first ∧
    ¬ AllBlank last

theorem framed_of_filled (hne : ls ≠ []) (h : ∀ line ∈ ls, ¬ AllBlank line) : Framed ls := by
  obtain ⟨first, rest, rfl⟩ := List.exists_cons_of_ne_nil hne
  exact ⟨first, rest, _, _, rfl, (List.dropLast_append_getLast hne).symm,
    h first List.mem_cons_self, h _ (List.getLast_mem hne)⟩

theorem map_trim_map_dropReturn (ls : List (List Char)) :
    (ls.map dropReturn).map trim = ls.map trim := by
  rw [List.map_map]
  exact List.map_congr_left fun line _ => trim_dropReturn line

/-- Between a first line and a last one that are not blank, every line is kept. -/
theorem map_trim_lines (hframed : Framed ls) (hline : ∀ line ∈ ls, '\n' ∉ line) :
    (lines (trim (join ls))).map trim = ls.map trim := by
  obtain ⟨first, rest, init, last, rfl, hsplit, hfirst, hlast⟩ := hframed
  have hlastne : last.rdropWhile isBlank ≠ [] := fun h => hlast (rdropWhile_eq_nil_iff.mp h)
  cases init with
  | nil =>
    -- The first line is the last one, and is trimmed at both ends.
    obtain ⟨rfl, rfl⟩ := List.cons.inj hsplit
    have hcore : '\n' ∉ trim first := fun h =>
      hline first List.mem_cons_self ((trim_sublist first).mem h)
    have hlines : lines (join ([] ++ [trim first])) = [] ++ [trim first] :=
      lines_join (List.forall_mem_nil _) hcore fun h => hfirst (trim_eq_nil_iff.mp h)
    rw [List.nil_append, join_singleton] at hlines
    rw [join_singleton, hlines]
    simp [trim_trim]
  | cons line init =>
    rw [List.cons_append] at hsplit
    obtain ⟨rfl, rfl⟩ := List.cons.inj hsplit
    obtain ⟨hfirstline, hline⟩ := List.forall_mem_cons.mp hline
    obtain ⟨hinit, hlastline⟩ := List.forall_mem_append.mp hline
    have hstart : '\n' ∉ first.dropWhile isBlank := fun h =>
      hfirstline ((List.dropWhile_sublist _).mem h)
    have hend : '\n' ∉ last.rdropWhile isBlank := fun h =>
      hlastline last List.mem_cons_self ((List.rdropWhile_prefix _ _).mem h)
    have hlines := lines_join (List.forall_mem_cons.mpr ⟨hstart, hinit⟩) hend hlastne
    rw [← List.cons_append, trim_join hfirst hlast, hlines, List.map_append,
      map_trim_map_dropReturn]
    simp only [List.map_append, List.map_cons, List.map_nil, trim_dropWhile, trim_rdropWhile]

end NetEditor.Text
