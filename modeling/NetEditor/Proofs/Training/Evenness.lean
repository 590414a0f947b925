-- The law of the check that a request makes of its samples. The first sample of other shapes than
-- the first of all is told, its input before its output. Reading the inputs together from texts
-- tells the same.
import NetEditor.Proofs.Sample.Spoiling

namespace NetEditor.Training

variable {samples front back : List Sample} {first s : Sample} {index : Nat} {fault : BatchFault}
  {texts : List (List Char)} {output : List Nat} {g : Graph} {schedule : Schedule}

/-! ## The first uneven sample -/

/-- Both shapes are those of the first sample. -/
def Matches (first s : Sample) : Prop :=
  s.input.shape = first.input.shape ∧ s.output.shape = first.output.shape

/-- What is told of a sample at this place: its input shape if that is not the one of the first
sample, and else its output shape. -/
inductive ToldUneven (first : Sample) (index : Nat) (s : Sample) : BatchFault → Prop
  | input (h : s.input.shape ≠ first.input.shape) :
      ToldUneven first index s (.shapeMismatch index first.input.shape s.input.shape)
  | output (hinput : s.input.shape = first.input.shape) (h : s.output.shape ≠ first.output.shape) :
      ToldUneven first index s (.shapeMismatch index first.output.shape s.output.shape)

/-- All of these samples have the shapes of the first of them, this one comes next and has not, and
this is told of it. -/
structure FirstUneven (front : List Sample) (s : Sample) (fault : BatchFault) : Prop where
  before : ∀ earlier ∈ front, Matches (front.headD s) earlier
  here : ToldUneven (front.headD s) (front.length + 1) s fault

theorem exists_toldUneven (h : ¬ Matches first s) (index : Nat) :
    ∃ fault, ToldUneven first index s fault := by
  by_cases hinput : s.input.shape = first.input.shape
  · exact ⟨_, .output hinput fun houtput => h ⟨hinput, houtput⟩⟩
  · exact ⟨_, .input hinput⟩

/-- Samples all have the shapes of the first of them, or one of them is the first that has not. -/
theorem even_or_uneven (first : Sample) (rest : List Sample) :
    (∀ s ∈ first :: rest, Matches first s) ∨ ∃ front s back fault,
      first :: rest = front ++ s :: back ∧ FirstUneven front s fault := by
  rcases forall_or_first (Matches first) (first :: rest) with
    hall | ⟨front, s, back, hsplit, hfront, hs⟩
  · exact Or.inl hall
  · rw [← headD_of_split hsplit] at hfront hs
    obtain ⟨fault, htold⟩ := exists_toldUneven hs (front.length + 1)
    exact Or.inr ⟨front, s, back, fault, hsplit, hfront, htold⟩

theorem shapeFault?_of_told (hfront : ∀ earlier ∈ front, Matches first earlier)
    (h : ToldUneven first (index + front.length) s fault) :
    Batch.shapeFault? first.input.shape first.output.shape index (front ++ s :: back) =
      some fault := by
  induction front generalizing index with
  | nil =>
    rw [List.nil_append, Batch.shapeFault?]
    cases h with
    | input h => rw [if_pos h]; rfl
    | output hinput h => rw [if_neg (not_not.mpr hinput), if_pos h]; rfl
  | cons earlier front ih =>
    obtain ⟨hearlier, hfront⟩ := List.forall_mem_cons.mp hfront
    rw [List.length_cons, Nat.add_comm front.length, ← Nat.add_assoc] at h
    rw [List.cons_append, Batch.shapeFault?, if_neg (not_not.mpr hearlier.1),
      if_neg (not_not.mpr hearlier.2), ih hfront h]

theorem unevenSample?_of_firstUneven (h : FirstUneven front s fault) (back : List Sample) :
    Batch.unevenSample? (front ++ s :: back) = some fault := by
  obtain ⟨hbefore, hhere⟩ := h
  cases front with
  | nil =>
    -- The first sample has its own shapes.
    cases hhere with
    | input h => exact absurd rfl h
    | output _ h => exact absurd rfl h
  | cons first front =>
    rw [List.headD_cons] at hbefore hhere
    have hplace : (first :: front).length + 1 = 2 + front.length := by
      rw [List.length_cons]
      omega
    rw [hplace] at hhere
    exact shapeFault?_of_told (List.forall_mem_cons.mp hbefore).2 hhere

theorem unevenSample?_eq_some_iff : Batch.unevenSample? samples = some fault ↔
    ∃ front s back, samples = front ++ s :: back ∧ FirstUneven front s fault := by
  constructor
  · intro h
    cases samples with
    | nil => cases h
    | cons first rest =>
      rcases even_or_uneven first rest with hall | ⟨front, s, back, fault', hsplit, hfirst⟩
      · have hnone : Batch.unevenSample? (first :: rest) = none :=
          shapeFault?_eq_none_iff.mpr (List.forall_mem_cons.mp hall).2
        cases hnone.symm.trans h
      · have htold := unevenSample?_of_firstUneven hfirst back
        rw [← hsplit, h] at htold
        obtain rfl := Option.some.inj htold
        exact ⟨front, s, back, hsplit, hfirst⟩
  · rintro ⟨front, s, back, rfl, hfirst⟩
    exact unevenSample?_of_firstUneven hfirst back

theorem not_evenShapes_iff : ¬ EvenShapes samples ↔ ∃ a ∈ samples, ∃ b ∈ samples,
    a.input.shape ≠ b.input.shape ∨ a.output.shape ≠ b.output.shape := by
  simp only [EvenShapes, not_forall, not_and_or, exists_prop]

/-! ## Inputs read from texts -/

theorem readRest_eq_error_iff {expected : List Nat}
    (h : List.Forall₂ (fun text s => SampleText.parse text = .ok s.input) texts samples)
    (houtput : ∀ s ∈ samples, s.output.shape = output) :
    Batch.readRest expected index texts = .error fault ↔
      Batch.shapeFault? expected output index samples = some fault := by
  induction h generalizing index with
  | nil => simp [Batch.readRest, Batch.shapeFault?]
  | @cons text s texts samples hread _ ih =>
    obtain ⟨hs, hrest⟩ := List.forall_mem_cons.mp houtput
    unfold Batch.readRest Batch.shapeFault?
    rw [hread]
    dsimp only
    by_cases hinput : s.input.shape = expected
    · rw [if_pos hinput, if_neg (not_not.mpr hinput), if_neg (not_not.mpr hs),
        Except.map_eq_error_iff, ih hrest]
    · rw [if_neg hinput, if_pos hinput, Except.error.injEq, Option.some.injEq]

/-- With outputs of one shape the check finds what reading the inputs together does. -/
theorem readAll_eq_error_iff_unevenSample? (hne : texts ≠ [])
    (h : Batch.ReadAs texts (samples.map Sample.input))
    (houtput : ∀ a ∈ samples, ∀ b ∈ samples, a.output.shape = b.output.shape) :
    Batch.readAll texts = .error fault ↔ Batch.unevenSample? samples = some fault := by
  cases Batch.readAs_map_iff.mp h with
  | nil => exact absurd rfl hne
  | @cons text first texts samples hfirst hrest =>
    rw [Batch.readAll_cons_of_ok hfirst, Except.map_eq_error_iff, Batch.unevenSample?]
    exact readRest_eq_error_iff hrest fun s hs =>
      houtput s (List.mem_cons_of_mem _ hs) first List.mem_cons_self

/-! ## The law -/

theorem Request.build_eq_error_iff (hschedule : schedule.Legal) {fault : Fault} :
    build g samples schedule = .error fault ↔
      ∃ told, Batch.unevenSample? samples = some told ∧ fault = .data told := by
  rw [build, Schedule.fault?_eq_none_iff.mpr hschedule]
  cases Batch.unevenSample? samples <;> simp [eq_comm]

structure SamplesChecked (g : Graph) (samples : List Sample) (schedule : Schedule) : Prop where
  refused_iff : (∃ fault, Request.build g samples schedule = .error fault) ↔
    ∃ a ∈ samples, ∃ b ∈ samples,
      a.input.shape ≠ b.input.shape ∨ a.output.shape ≠ b.output.shape
  told_iff : ∀ fault, Request.build g samples schedule = .error fault ↔
    ∃ front s back told, samples = front ++ s :: back ∧ FirstUneven front s told ∧
      fault = .data told
  /-- If all outputs have one shape, the same is told of the inputs when they are read together from
  texts, unless there are none. -/
  read_alike : ∀ texts, texts ≠ [] → Batch.ReadAs texts (samples.map Sample.input) →
    (∀ a ∈ samples, ∀ b ∈ samples, a.output.shape = b.output.shape) →
    ∀ fault, Request.build g samples schedule = .error fault ↔
      ∃ told, Batch.readAll texts = .error told ∧ fault = .data told

/-- A request with a legal schedule is refused exactly if two samples differ in a shape, and for the
first sample that differs from the first of all. -/
theorem a_request_is_refused_for_the_first_uneven_sample (g : Graph) (samples : List Sample)
    (schedule : Schedule) (hschedule : schedule.Legal) : SamplesChecked g samples schedule where
  refused_iff := by
    rw [← not_evenShapes_iff, ← unevenSample?_eq_none_iff, ← ne_eq, Option.ne_none_iff_exists']
    constructor
    · rintro ⟨fault, h⟩
      obtain ⟨told, htold, _⟩ := (Request.build_eq_error_iff hschedule).mp h
      exact ⟨told, htold⟩
    · rintro ⟨told, htold⟩
      exact ⟨_, (Request.build_eq_error_iff hschedule).mpr ⟨told, htold, rfl⟩⟩
  told_iff fault := by
    rw [Request.build_eq_error_iff hschedule]
    constructor
    · rintro ⟨told, htold, rfl⟩
      obtain ⟨front, s, back, hsplit, hfirst⟩ := unevenSample?_eq_some_iff.mp htold
      exact ⟨front, s, back, told, hsplit, hfirst, rfl⟩
    · rintro ⟨front, s, back, told, hsplit, hfirst, rfl⟩
      exact ⟨told, unevenSample?_eq_some_iff.mpr ⟨front, s, back, hsplit, hfirst⟩, rfl⟩
  read_alike texts hne hinputs houtput fault := by
    rw [Request.build_eq_error_iff hschedule]
    simp only [readAll_eq_error_iff_unevenSample? hne hinputs houtput]

/-- Two samples of two zeros in, and one of a single zero. -/
def shrinking : List Sample :=
  [Request.zeroSample, Request.zeroSample, ⟨Request.zeroSample.output, Request.zeroSample.output⟩]

theorem a_shrunken_sample_is_told_by_both :
    let texts := ["0 -0".toList, "0,-0".toList, "0".toList]
    Schedule.initial.Legal ∧ Batch.ReadAs texts (shrinking.map Sample.input) ∧
      Request.build .empty shrinking .initial = .error (.data (.shapeMismatch 3 [2] [1])) ∧
      Batch.readAll texts = .error (.shapeMismatch 3 [2] [1]) := by
  intro texts
  have hschedule : Schedule.initial.Legal := Schedule.fault?_eq_none_iff.mp (by decide +kernel)
  have hinputs : Batch.ReadAs texts (shrinking.map Sample.input) :=
    .cons (by decide +kernel) (.cons (by decide +kernel) (.cons (by decide +kernel) .nil))
  have hchecked := a_request_is_refused_for_the_first_uneven_sample .empty shrinking .initial
    hschedule
  have htold : Request.build .empty shrinking .initial =
      .error (.data (.shapeMismatch 3 [2] [1])) :=
    (hchecked.told_iff _).mpr ⟨[Request.zeroSample, Request.zeroSample], _, [], _, rfl,
      ⟨by simp [Matches], .input (by decide)⟩, rfl⟩
  obtain ⟨told, hread, hfault⟩ := (hchecked.read_alike texts (List.cons_ne_nil _ _) hinputs
    (by simp [shrinking]) _).mp htold
  obtain rfl := Fault.data.inj hfault
  exact ⟨hschedule, hinputs, htold, hread⟩

/-- A request may have no samples, but no samples are read from no texts. -/
theorem no_samples_are_requested_but_not_read :
    Request.build .empty [] .initial = .ok (Request.ofGraph .empty [] .initial) ∧
      Batch.readAll [] = .error .empty ∧
      ¬ ∀ (samples : List Sample) (texts : List (List Char)),
        Batch.ReadAs texts (samples.map Sample.input) →
        (∀ a ∈ samples, ∀ b ∈ samples, a.output.shape = b.output.shape) →
        ((∃ fault, Request.build .empty samples .initial = .error fault) ↔
          ∃ fault, Batch.readAll texts = .error fault) := by
  have hbuild : Request.build .empty [] .initial = .ok (Request.ofGraph .empty [] .initial) :=
    Request.build_eq_ok_iff.mpr ⟨Schedule.fault?_eq_none_iff.mp (by decide +kernel),
      fun a ha => absurd ha List.not_mem_nil, rfl⟩
  refine ⟨hbuild, rfl, fun h => ?_⟩
  obtain ⟨fault, hfault⟩ := (h [] [] .nil fun a ha => absurd ha List.not_mem_nil).mpr ⟨_, rfl⟩
  cases hbuild.symm.trans hfault

end NetEditor.Training
