-- The law of blank lines. Before the first sample of a text and after the last they make no
-- difference. One that stands between two samples is taken for a sample, and spoils the batch.
import NetEditor.Proofs.Sample.Spoiling
import NetEditor.Proofs.Text.Lines

namespace NetEditor.Batch

variable {text inputs outputs : String} {announced : Option Nat} {batch : List Sample}
  {ls before core after : List (List Char)} {ts : List Tensor}

/-! ## Lines that are not blank -/

/-- All lines of a text, the blank ones and the others. -/
def allLines (text : String) : List (List Char) := text.toList.splitOn '\n'

/-- The lines of a text that are not blank. -/
def filledLines (text : String) : List (List Char) :=
  (allLines text).filter fun line => ¬ Text.AllBlank line

/-- The text without its blank lines. -/
def withoutBlankLines (text : String) : String := String.ofList (Text.join (filledLines text))

/-- The blank lines of the text are before all others or after them. -/
def Unbroken (text : String) : Prop :=
  ∃ before after, (∀ line ∈ before, Text.AllBlank line) ∧ (∀ line ∈ after, Text.AllBlank line) ∧
    allLines text = before ++ filledLines text ++ after

theorem notMem_of_mem_allLines {line : List Char} (h : line ∈ allLines text) : '\n' ∉ line :=
  Text.notMem_of_mem_splitOn h

theorem filled_of_mem_filledLines {line : List Char} (h : line ∈ filledLines text) :
    ¬ Text.AllBlank line :=
  of_decide_eq_true (List.mem_filter.mp h).2

theorem trim_of_allLines (h : allLines text = before ++ core ++ after)
    (hbefore : ∀ line ∈ before, Text.AllBlank line) (hafter : ∀ line ∈ after, Text.AllBlank line) :
    Text.trim text.toList = Text.trim (Text.join core) := by
  rw [← Text.join_splitOn text.toList, ← allLines, h, Text.trim_join_right hafter,
    Text.trim_join_left hbefore]

theorem sampleLines_withoutBlankLines (h : Unbroken text) :
    sampleLines (withoutBlankLines text) = sampleLines text := by
  obtain ⟨before, after, hbefore, hafter, hlines⟩ := h
  unfold sampleLines withoutBlankLines
  rw [String.toList_ofList, trim_of_allLines hlines hbefore hafter]

/-- If not all lines are blank, then some of them are framed by two that are not, and around these
are only blank lines. -/
theorem blank_or_framed (ls : List (List Char)) : (∀ line ∈ ls, Text.AllBlank line) ∨
    ∃ before core after, ls = before ++ core ++ after ∧ (∀ line ∈ before, Text.AllBlank line) ∧
      (∀ line ∈ after, Text.AllBlank line) ∧ Text.Framed core := by
  rcases forall_or_first Text.AllBlank ls with hall | ⟨before, first, rest, rfl, hbefore, hfirst⟩
  · exact Or.inl hall
  rcases forall_or_last Text.AllBlank (first :: rest) with
    hall | ⟨init, last, after, hsplit, hlast, hafter⟩
  · exact absurd (hall first List.mem_cons_self) hfirst
  · have hcore : ∃ more, init ++ [last] = first :: more := by
      cases init with
      | nil => exact ⟨[], by rw [(List.cons.inj hsplit).1]; rfl⟩
      | cons line init => exact ⟨init ++ [last], by rw [(List.cons.inj hsplit).1]; rfl⟩
    obtain ⟨more, hmore⟩ := hcore
    refine Or.inr ⟨before, init ++ [last], after, ?_, hbefore, hafter,
      first, more, init, last, hmore, rfl, hfirst, hlast⟩
    rw [hsplit, List.append_assoc, List.append_assoc, List.singleton_append]

theorem filledLines_of_allLines (h : allLines text = before ++ core ++ after)
    (hbefore : ∀ line ∈ before, Text.AllBlank line) (hafter : ∀ line ∈ after, Text.AllBlank line)
    (hcore : ∀ line ∈ core, ¬ Text.AllBlank line) : filledLines text = core := by
  have hblank : ∀ ls : List (List Char), (∀ line ∈ ls, Text.AllBlank line) →
      ls.filter (fun line => ¬ Text.AllBlank line) = [] := by
    intro ls hls
    rw [List.filter_eq_nil_iff]
    simpa using hls
  have hself : core.filter (fun line => ¬ Text.AllBlank line) = core := by
    rw [List.filter_eq_self]
    simpa using hcore
  rw [filledLines, h, List.filter_append, List.filter_append, hblank before hbefore,
    hblank after hafter, hself, List.nil_append, List.append_nil]

/-- Where no sample is blank, no blank line was between them. -/
theorem unbroken_of_filled (h : ∀ line ∈ sampleLines text, ¬ Text.AllBlank line) :
    Unbroken text := by
  rcases blank_or_framed (allLines text) with
    hall | ⟨before, core, after, hlines, hbefore, hafter, hframed⟩
  · have hlines : allLines text = allLines text ++ [] ++ [] := by simp
    have hfilled := filledLines_of_allLines hlines hall (List.forall_mem_nil _)
      (List.forall_mem_nil _)
    exact ⟨allLines text, [], hall, List.forall_mem_nil _, hfilled ▸ hlines⟩
  · have hmap : (sampleLines text).map Text.trim = core.map Text.trim := by
      rw [sampleLines, trim_of_allLines hlines hbefore hafter]
      exact Text.map_trim_lines hframed fun line hmem =>
        notMem_of_mem_allLines (hlines ▸ List.mem_append_left _ (List.mem_append_right _ hmem))
    have hcore : ∀ line ∈ core, ¬ Text.AllBlank line := by
      intro line hmem hblank
      have hmem' : Text.trim line ∈ (sampleLines text).map Text.trim :=
        hmap ▸ List.mem_map_of_mem hmem
      obtain ⟨sample, hsample, htrim⟩ := List.mem_map.mp hmem'
      rw [Text.trim_eq_nil_iff.mpr hblank] at htrim
      exact h sample hsample (Text.trim_eq_nil_iff.mp htrim)
    have hfilled := filledLines_of_allLines hlines hbefore hafter hcore
    exact ⟨before, after, hbefore, hafter, hfilled ▸ hlines⟩

/-- Where the blank lines are all around the others, the samples are the others. -/
theorem map_trim_sampleLines (h : Unbroken text) :
    (sampleLines text).map Text.trim = (filledLines text).map Text.trim := by
  obtain ⟨before, after, hbefore, hafter, hlines⟩ := h
  rw [sampleLines, trim_of_allLines hlines hbefore hafter]
  by_cases hne : filledLines text = []
  · rw [hne]
    rfl
  · exact Text.map_trim_lines (Text.framed_of_filled hne fun _ => filled_of_mem_filledLines)
      fun line hmem => notMem_of_mem_allLines (List.mem_of_mem_filter hmem)

/-! ## Reading them -/

theorem parse_trim (line : List Char) :
    SampleText.parse (Text.trim line) = SampleText.parse line := by
  unfold SampleText.parse SampleText.parseWith
  rw [Text.trim_trim]

theorem readRest_map_trim (expected : List Nat) (index : Nat) (ls : List (List Char)) :
    readRest expected index (ls.map Text.trim) = readRest expected index ls := by
  induction ls generalizing index with
  | nil => rfl
  | cons line rest ih =>
    rw [List.map_cons]
    unfold readRest
    rw [parse_trim, ih]

theorem readAll_map_trim (ls : List (List Char)) : readAll (ls.map Text.trim) = readAll ls := by
  cases ls with
  | nil => rfl
  | cons line rest =>
    rw [List.map_cons]
    simp only [readAll, parse_trim, readRest_map_trim]

theorem readAll_sampleLines (h : Unbroken text) :
    readAll (sampleLines text) = readAll (filledLines text) := by
  rw [← readAll_map_trim, map_trim_sampleLines h, readAll_map_trim]

theorem ReadAs.filled (h : ReadAs ls ts) : ∀ line ∈ ls, ¬ Text.AllBlank line := by
  refine forall_left_of_forall₂ h fun line t hread hblank => ?_
  cases (SampleText.parseWith_of_blank _ hblank).symm.trans hread

/-- A text is read exactly if no blank line is between its samples and the lines that are not blank
are read. -/
theorem readAll_sampleLines_eq_ok_iff : readAll (sampleLines text) = .ok ts ↔
    Unbroken text ∧ readAll (filledLines text) = .ok ts := by
  constructor
  · intro h
    have hunbroken := unbroken_of_filled (readAll_eq_ok_iff.mp h).2.1.filled
    exact ⟨hunbroken, (readAll_sampleLines hunbroken).symm.trans h⟩
  · rintro ⟨hunbroken, h⟩
    exact (readAll_sampleLines hunbroken).trans h

theorem length_of_readAll (h : readAll ls = .ok ts) : ts.length = ls.length :=
  (readAll_eq_ok_iff.mp h).2.1.length_eq.symm

/-! ## The law -/

/-- The sides of the batch are read from the lines that are not blank, one from each line, and it is
as long as announced. -/
structure ReadFromFilled (inputs outputs : String) (announced : Option Nat) (batch : List Sample) :
    Prop where
  input : readAll (filledLines inputs) = .ok (batch.map Sample.input)
  output : readAll (filledLines outputs) = .ok (batch.map Sample.output)
  input_count : batch.length = (filledLines inputs).length
  output_count : batch.length = (filledLines outputs).length
  announced_count : ∀ n ∈ announced, batch.length = n

/-- What blank lines come to in a batch made of two texts. -/
structure BlankLinesSkipped (inputs outputs : String) (announced : Option Nat) : Prop where
  /-- Around the samples of either text they make no difference. -/
  around : Unbroken inputs → Unbroken outputs →
    build inputs outputs announced =
      build (withoutBlankLines inputs) (withoutBlankLines outputs) announced
  /-- There is a batch exactly if none is between two samples, and it has one sample for each line
  that is not blank. -/
  accepted_iff : ∀ batch, build inputs outputs announced = .ok batch ↔
    Unbroken inputs ∧ Unbroken outputs ∧ ReadFromFilled inputs outputs announced batch

theorem build_withoutBlankLines (hinputs : Unbroken inputs) (houtputs : Unbroken outputs)
    (announced : Option Nat) : build inputs outputs announced =
      build (withoutBlankLines inputs) (withoutBlankLines outputs) announced := by
  unfold build
  rw [sampleLines_withoutBlankLines hinputs, sampleLines_withoutBlankLines houtputs]

theorem readFromFilled_of_build (h : build inputs outputs announced = .ok batch) :
    Unbroken inputs ∧ Unbroken outputs ∧ ReadFromFilled inputs outputs announced batch := by
  obtain ⟨_, hins, houts⟩ := build_eq_ok_iff.mp h
  obtain ⟨hinputs, hins⟩ := readAll_sampleLines_eq_ok_iff.mp hins
  obtain ⟨houtputs, houts⟩ := readAll_sampleLines_eq_ok_iff.mp houts
  have hincount := length_of_readAll hins
  have houtcount := length_of_readAll houts
  rw [List.length_map] at hincount houtcount
  exact ⟨hinputs, houtputs, hins, houts, hincount, houtcount, (paired_of_build h).announced_count⟩

theorem build_of_readFromFilled (hinputs : Unbroken inputs) (houtputs : Unbroken outputs)
    (h : ReadFromFilled inputs outputs announced batch) :
    build inputs outputs announced = .ok batch := by
  have hins := readAll_sampleLines_eq_ok_iff.mpr ⟨hinputs, h.input⟩
  have houts := readAll_sampleLines_eq_ok_iff.mpr ⟨houtputs, h.output⟩
  have hincount := length_of_readAll hins
  have houtcount := length_of_readAll houts
  rw [List.length_map] at hincount houtcount
  exact build_of_readBy ⟨counted_of_length hincount houtcount h.announced_count, hins, houts⟩

/-- Blank lines before the samples of a text and after them make no difference. One between two
samples leaves no batch, so that a batch has a sample for each line that is not blank. -/
theorem blank_lines_around_the_samples_are_skipped (inputs outputs : String)
    (announced : Option Nat) : BlankLinesSkipped inputs outputs announced where
  around hinputs houtputs := build_withoutBlankLines hinputs houtputs announced
  accepted_iff _ := ⟨readFromFilled_of_build,
    fun ⟨hinputs, houtputs, h⟩ => build_of_readFromFilled hinputs houtputs h⟩

-- Two samples, with blank lines before the inputs and after the outputs.
example : (build "\n \t\r\n1 2\n3 4" "0\n1\n\n" none).toOption.map List.length = some 2 := by
  decide +kernel

/-- A blank line between two samples is counted as one, so that there are more inputs than
outputs. -/
theorem a_blank_line_between_samples_is_counted :
    build "1 2\n\n3 4" "0\n1" none = .error (.countMismatch .output 3 2) ∧
      ¬ ∀ inputs outputs announced, build inputs outputs announced =
        build (withoutBlankLines inputs) (withoutBlankLines outputs) announced := by
  have hcounted : build "1 2\n\n3 4" "0\n1" none = .error (.countMismatch .output 3 2) := by
    decide +kernel
  refine ⟨hcounted, fun h => ?_⟩
  have hskipped := h "1 2\n\n3 4" "0\n1" none
  rw [hcounted] at hskipped
  revert hskipped
  decide +kernel

end NetEditor.Batch
