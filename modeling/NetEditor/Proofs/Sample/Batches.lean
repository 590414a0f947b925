-- The law of batches made of two texts: line by line the inputs are paired with the outputs, none
-- is lost, and what comes of it can always be trained on.
import NetEditor.Proofs.Lists
import NetEditor.Proofs.Sample.Grammar
import NetEditor.Proofs.Training.Requests

namespace NetEditor.Batch

/-! ## One side -/

variable {texts : List (List Char)} {ts : List Tensor}

def ReadAs : List (List Char) → List Tensor → Prop :=
  List.Forall₂ fun text t => SampleText.parse text = .ok t

theorem readRest_eq_ok_iff {expected : List Nat} {index : Nat} :
    readRest expected index texts = .ok ts ↔ ReadAs texts ts ∧ ∀ t ∈ ts, t.shape = expected := by
  induction texts generalizing index ts with
  | nil => cases ts <;> simp [readRest, ReadAs]
  | cons text rest ih =>
    constructor
    · intro h
      unfold readRest at h
      split at h
      · cases h
      · rename_i t ht
        split at h
        · rename_i hshape
          obtain ⟨ts, hrest, rfl⟩ := Except.map_eq_ok_iff.mp h
          obtain ⟨hread, hshapes⟩ := ih.mp hrest
          exact ⟨.cons ht hread, List.forall_mem_cons.mpr ⟨hshape, hshapes⟩⟩
        · cases h
    · rintro ⟨hread, hshapes⟩
      cases hread with
      | cons ht hrest =>
        obtain ⟨hshape, hshapes⟩ := List.forall_mem_cons.mp hshapes
        simp only [readRest, ht, hshape, if_true, ih.mpr ⟨hrest, hshapes⟩, Except.map]

/-- Texts are read exactly if there are some, each is read by itself, and all come to one shape. -/
theorem readAll_eq_ok_iff : readAll texts = .ok ts ↔
    texts ≠ [] ∧ ReadAs texts ts ∧ ∀ a ∈ ts, ∀ b ∈ ts, a.shape = b.shape := by
  cases texts with
  | nil => simp [readAll]
  | cons text rest =>
    constructor
    · intro h
      unfold readAll at h
      dsimp only at h
      split at h
      · cases h
      · rename_i first hfirst
        obtain ⟨ts, hrest, rfl⟩ := Except.map_eq_ok_iff.mp h
        obtain ⟨hread, hshapes⟩ := readRest_eq_ok_iff.mp hrest
        have hall : ∀ t ∈ first :: ts, t.shape = first.shape :=
          List.forall_mem_cons.mpr ⟨rfl, hshapes⟩
        exact ⟨List.cons_ne_nil _ _, .cons hfirst hread,
          fun a ha b hb => (hall a ha).trans (hall b hb).symm⟩
    · rintro ⟨_, hread, hshapes⟩
      cases hread with
      | @cons _ first _ ts hfirst hread =>
        have hrest : ∀ t ∈ ts, t.shape = first.shape := fun t ht =>
          hshapes t (List.mem_cons_of_mem _ ht) first List.mem_cons_self
        simp only [readAll, hfirst, readRest_eq_ok_iff.mpr ⟨hread, hrest⟩, Except.map]

/-! ## Both sides -/

/-- What there is as much of on both sides is paired without loss. -/
theorem zipWith_mk_eq_iff {ins outs : List Tensor} {batch : List Sample}
    (h : ins.length = outs.length) : List.zipWith Sample.mk ins outs = batch ↔
      ins = batch.map Sample.input ∧ outs = batch.map Sample.output := by
  induction ins generalizing outs batch with
  | nil =>
    obtain rfl := List.eq_nil_of_length_eq_zero h.symm
    cases batch <;> simp
  | cons a ins ih =>
    cases outs with
    | nil => cases h
    | cons b outs =>
      cases batch with
      | nil => simp
      | cons sample batch =>
        have hrest : List.zipWith Sample.mk ins outs = batch ↔
            ins = batch.map Sample.input ∧ outs = batch.map Sample.output := ih (Nat.succ.inj h)
        obtain ⟨input, output⟩ := sample
        simp only [List.zipWith_cons_cons, List.cons.injEq, Sample.mk.injEq, hrest, List.map_cons]
        exact and_and_and_comm

variable {inputs outputs : String} {announced : Option Nat} {batch : List Sample}
  {fault : BatchFault}

/-- As many lines as there should be on either side. -/
def expectedCount (inputs : String) (announced : Option Nat) : Nat :=
  announced.getD (sampleLines inputs).length

structure Counted (inputs outputs : String) (announced : Option Nat) : Prop where
  input : (sampleLines inputs).length = expectedCount inputs announced
  output : (sampleLines outputs).length = expectedCount inputs announced

theorem counted_of_length {n : Nat} (hin : n = (sampleLines inputs).length)
    (hout : n = (sampleLines outputs).length) (h : ∀ m ∈ announced, n = m) :
    Counted inputs outputs announced := by
  have hexpected : expectedCount inputs announced = n := by
    cases announced with
    | none => rw [expectedCount, Option.getD_none, hin]
    | some m => rw [expectedCount, Option.getD_some, h m rfl]
  exact ⟨hin.symm.trans hexpected.symm, hout.symm.trans hexpected.symm⟩

/-- The samples that two lists of texts are read to. -/
def readSides (ins outs : List (List Char)) : Except BatchFault (List Sample) :=
  match readAll ins with
  | .error fault => .error fault
  | .ok inputs => (readAll outs).map (List.zipWith Sample.mk inputs)

theorem build_eq (inputs outputs : String) (announced : Option Nat) :
    build inputs outputs announced =
      if (sampleLines inputs).length ≠ expectedCount inputs announced then
        .error (.countMismatch .input (expectedCount inputs announced) (sampleLines inputs).length)
      else if (sampleLines outputs).length ≠ expectedCount inputs announced then
        .error
          (.countMismatch .output (expectedCount inputs announced) (sampleLines outputs).length)
      else readSides (sampleLines inputs) (sampleLines outputs) := by
  simp only [build, readSides, expectedCount]
  rfl

theorem build_of_counted (h : Counted inputs outputs announced) :
    build inputs outputs announced = readSides (sampleLines inputs) (sampleLines outputs) := by
  rw [build_eq, if_neg (not_not.mpr h.input), if_neg (not_not.mpr h.output)]

/-- Why two texts make no batch. The counts are looked at before the lines, and the inputs before
the outputs. -/
inductive Refused (inputs outputs : String) (announced : Option Nat) : BatchFault → Prop
  | inputCount (h : (sampleLines inputs).length ≠ expectedCount inputs announced) :
    Refused inputs outputs announced
      (.countMismatch .input (expectedCount inputs announced) (sampleLines inputs).length)
  | outputCount (hin : (sampleLines inputs).length = expectedCount inputs announced)
      (h : (sampleLines outputs).length ≠ expectedCount inputs announced) :
    Refused inputs outputs announced
      (.countMismatch .output (expectedCount inputs announced) (sampleLines outputs).length)
  | inputLine {fault : BatchFault} (hcount : Counted inputs outputs announced)
      (h : readAll (sampleLines inputs) = .error fault) : Refused inputs outputs announced fault
  | outputLine {fault : BatchFault} {ins : List Tensor} (hcount : Counted inputs outputs announced)
      (hins : readAll (sampleLines inputs) = .ok ins)
      (h : readAll (sampleLines outputs) = .error fault) : Refused inputs outputs announced fault

theorem build_of_refused (h : Refused inputs outputs announced fault) :
    build inputs outputs announced = .error fault := by
  cases h with
  | inputCount h => rw [build_eq, if_pos h]
  | outputCount hin h => rw [build_eq, if_neg (not_not.mpr hin), if_pos h]
  | inputLine hcount h => rw [build_of_counted hcount, readSides, h]
  | outputLine hcount hins h =>
    rw [build_of_counted hcount, readSides, hins, h]
    rfl

/-- The two sides are as long as they should be, and read to the two sides of a batch. -/
structure ReadBy (inputs outputs : String) (announced : Option Nat) (batch : List Sample) :
    Prop where
  counted : Counted inputs outputs announced
  input : readAll (sampleLines inputs) = .ok (batch.map Sample.input)
  output : readAll (sampleLines outputs) = .ok (batch.map Sample.output)

theorem build_of_readBy (h : ReadBy inputs outputs announced batch) :
    build inputs outputs announced = .ok batch := by
  have hpairs : List.zipWith Sample.mk (batch.map Sample.input) (batch.map Sample.output) = batch :=
    (zipWith_mk_eq_iff (by simp)).mpr ⟨rfl, rfl⟩
  rw [build_of_counted h.counted, readSides, h.input, h.output]
  simp only [Except.map, hpairs]

/-- Two texts are refused or read: what is read on two sides of one length is paired. -/
theorem refused_or_readBy (inputs outputs : String) (announced : Option Nat) :
    (∃ fault, Refused inputs outputs announced fault) ∨
      ∃ batch, ReadBy inputs outputs announced batch := by
  by_cases hin : (sampleLines inputs).length = expectedCount inputs announced
  · by_cases hout : (sampleLines outputs).length = expectedCount inputs announced
    · cases hins : readAll (sampleLines inputs) with
      | error fault => exact .inl ⟨fault, .inputLine ⟨hin, hout⟩ hins⟩
      | ok ins =>
        cases houts : readAll (sampleLines outputs) with
        | error fault => exact .inl ⟨fault, .outputLine ⟨hin, hout⟩ hins houts⟩
        | ok outs =>
          have hlength : ins.length = outs.length := by
            rw [← (readAll_eq_ok_iff.mp hins).2.1.length_eq, hin, ← hout,
              (readAll_eq_ok_iff.mp houts).2.1.length_eq]
          obtain ⟨hinputs, houtputs⟩ := (zipWith_mk_eq_iff hlength).mp rfl
          exact .inr ⟨_, ⟨hin, hout⟩, hins.trans (congrArg _ hinputs),
            houts.trans (congrArg _ houtputs)⟩
    · exact .inl ⟨_, .outputCount hin hout⟩
  · exact .inl ⟨_, .inputCount hin⟩

theorem build_eq_ok_iff :
    build inputs outputs announced = .ok batch ↔ ReadBy inputs outputs announced batch := by
  refine ⟨fun h => ?_, build_of_readBy⟩
  rcases refused_or_readBy inputs outputs announced with ⟨fault, hrefused⟩ | ⟨batch', hread⟩
  · cases (build_of_refused hrefused).symm.trans h
  · obtain rfl : batch' = batch := Except.ok.inj ((build_of_readBy hread).symm.trans h)
    exact hread

theorem build_eq_error_iff :
    build inputs outputs announced = .error fault ↔ Refused inputs outputs announced fault := by
  refine ⟨fun h => ?_, build_of_refused⟩
  rcases refused_or_readBy inputs outputs announced with ⟨fault', hrefused⟩ | ⟨batch, hread⟩
  · obtain rfl : fault' = fault :=
      Except.error.inj ((build_of_refused hrefused).symm.trans h)
    exact hrefused
  · cases (build_of_readBy hread).symm.trans h

/-! ## The law -/

/-- What a batch promises that was made of two texts. -/
structure Paired (inputs outputs : String) (announced : Option Nat) (batch : List Sample) :
    Prop where
  /-- There is one sample for each line of the inputs, and one for each line of the outputs. -/
  input_count : batch.length = (sampleLines inputs).length
  output_count : batch.length = (sampleLines outputs).length
  announced_count : ∀ n ∈ announced, batch.length = n
  nonempty : 1 ≤ batch.length
  /-- The sides of a sample are what is read from the two lines at its place. -/
  inputs_read : List.Forall₂ (fun line sample => SampleText.parse line = .ok sample.input)
    (sampleLines inputs) batch
  outputs_read : List.Forall₂ (fun line sample => SampleText.parse line = .ok sample.output)
    (sampleLines outputs) batch
  even : Training.EvenShapes batch
  solid : ∀ sample ∈ batch, sample.input.Solid ∧ sample.output.Solid
  /-- Every graph makes a request with the batch and a legal schedule, and sends it whole. -/
  trainable : ∀ (g : Graph) (schedule : Training.Schedule), schedule.fault? = none →
    ∃ r, Training.Request.build g batch schedule = .ok r ∧ r.samples = batch

theorem ReadAs.solid (h : ReadAs texts ts) : ∀ t ∈ ts, t.Solid :=
  forall_right_of_forall₂ h fun _ _ hread => SampleText.solid_of_parseWith hread

theorem readAs_map_iff {lines : List (List Char)} {side : Sample → Tensor} :
    ReadAs lines (batch.map side) ↔
      List.Forall₂ (fun line sample => SampleText.parse line = .ok (side sample)) lines batch := by
  rw [ReadAs, List.forall₂_map_right_iff]

theorem paired_of_build (h : build inputs outputs announced = .ok batch) :
    Paired inputs outputs announced batch := by
  obtain ⟨hcount, hins, houts⟩ := build_eq_ok_iff.mp h
  obtain ⟨hne, hinread, hinshape⟩ := readAll_eq_ok_iff.mp hins
  obtain ⟨_, houtread, houtshape⟩ := readAll_eq_ok_iff.mp houts
  have hinput : batch.length = (sampleLines inputs).length := by
    rw [hinread.length_eq, List.length_map]
  have houtput : batch.length = (sampleLines outputs).length := by
    rw [houtread.length_eq, List.length_map]
  have heven : Training.EvenShapes batch := fun a ha b hb =>
    ⟨hinshape _ (List.mem_map_of_mem ha) _ (List.mem_map_of_mem hb),
      houtshape _ (List.mem_map_of_mem ha) _ (List.mem_map_of_mem hb)⟩
  refine ⟨hinput, houtput, ?_, ?_, readAs_map_iff.mp hinread, readAs_map_iff.mp houtread, heven,
    ?_, ?_⟩
  · intro n hn
    rw [hinput, hcount.input, expectedCount, Option.mem_def.mp hn, Option.getD_some]
  · rw [hinput]
    exact List.length_pos_iff.mpr hne
  · exact fun sample hsample => ⟨hinread.solid _ (List.mem_map_of_mem hsample),
      houtread.solid _ (List.mem_map_of_mem hsample)⟩
  · intro g schedule hschedule
    exact ⟨_, Training.Request.build_eq_ok_iff.mpr
      ⟨Training.Schedule.fault?_eq_none_iff.mp hschedule, heven, rfl⟩, rfl⟩

theorem build_of_paired (h : Paired inputs outputs announced batch) :
    build inputs outputs announced = .ok batch := by
  have hcount : Counted inputs outputs announced :=
    counted_of_length h.input_count h.output_count h.announced_count
  have hne : ∀ lines : List (List Char), batch.length = lines.length → lines ≠ [] :=
    fun lines hlines => List.length_pos_iff.mp (hlines ▸ h.nonempty)
  have hins : readAll (sampleLines inputs) = .ok (batch.map Sample.input) := by
    refine readAll_eq_ok_iff.mpr ⟨hne _ h.input_count, readAs_map_iff.mpr h.inputs_read, ?_⟩
    simp only [List.forall_mem_map]
    exact fun a ha b hb => (h.even a ha b hb).1
  have houts : readAll (sampleLines outputs) = .ok (batch.map Sample.output) := by
    refine readAll_eq_ok_iff.mpr ⟨hne _ h.output_count, readAs_map_iff.mpr h.outputs_read, ?_⟩
    simp only [List.forall_mem_map]
    exact fun a ha b hb => (h.even a ha b hb).2
  exact build_of_readBy ⟨hcount, hins, houts⟩

/-- A batch is what pairs the two texts line by line and can be trained on. Two texts that make none
are refused for the first reason there is. -/
theorem a_batch_pairs_all_lines_and_can_be_trained_on (inputs outputs : String)
    (announced : Option Nat) :
    (∀ batch, build inputs outputs announced = .ok batch ↔
      Paired inputs outputs announced batch) ∧
    ∀ fault, build inputs outputs announced = .error fault ↔
      Refused inputs outputs announced fault :=
  ⟨fun _ => ⟨paired_of_build, build_of_paired⟩, fun _ => build_eq_error_iff⟩

-- Two matrices and two numbers. The blanks around a text are no lines, but those inside one are.
example : (build " 1 2; 3,4\r\n5 6; 7 8\n" "0\n1e2" (some 2)).toOption.map
    (List.map fun sample => (sample.input.shape, sample.output.shape)) =
      some [([2, 2], [1]), ([2, 2], [1])] := by decide +kernel

example : build "1 2\n3 4" "0\n\n1" none = .error (.countMismatch .output 2 3) := rfl

end NetEditor.Batch
