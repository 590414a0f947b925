-- The law of samples that are read together. They are taken all or none, and the first one that
-- spoils them is told by its place, counted from one, whatever comes after it.
import NetEditor.Proofs.Sample.Batches

namespace NetEditor.Batch

variable {texts front back : List (List Char)} {first text : List Char} {a : Tensor} {index : Nat}
  {fault : BatchFault}

/-! ## Samples of one shape -/

/-- The text is read, and to the same shape as the first one. -/
def Alike (first text : List Char) : Prop :=
  ∃ a t, SampleText.parse first = .ok a ∧ SampleText.parse text = .ok t ∧ t.shape = a.shape

/-- What is told of a text at this place that is not like the first one: why it is not read, or else
the two shapes. -/
inductive Told (first : List Char) (index : Nat) (text : List Char) : BatchFault → Prop
  | malformed {defect : SampleDefect} (h : SampleText.parse text = .error defect) :
      Told first index text (.malformed index defect)
  | mismatched {a t : Tensor} (hfirst : SampleText.parse first = .ok a)
      (h : SampleText.parse text = .ok t) (hne : t.shape ≠ a.shape) :
      Told first index text (.shapeMismatch index a.shape t.shape)

/-- All of these texts are like the first of them, this one comes next and is not, and this is told
of it. -/
structure FirstSpoiled (front : List (List Char)) (text : List Char) (fault : BatchFault) :
    Prop where
  before : ∀ earlier ∈ front, Alike (front.headD text) earlier
  here : Told (front.headD text) (front.length + 1) text fault

theorem Alike.exists_tensor (h : Alike first text) (hfirst : SampleText.parse first = .ok a) :
    ∃ t, SampleText.parse text = .ok t ∧ t.shape = a.shape := by
  obtain ⟨a', t, hfirst', hread, hshape⟩ := h
  obtain rfl := Except.ok.inj (hfirst.symm.trans hfirst')
  exact ⟨t, hread, hshape⟩

theorem exists_told (hfirst : SampleText.parse first = .ok a) (index : Nat)
    (h : ¬ Alike first text) : ∃ fault, Told first index text fault := by
  cases hread : SampleText.parse text with
  | error defect => exact ⟨_, .malformed hread⟩
  | ok t =>
    by_cases hshape : t.shape = a.shape
    · exact absurd ⟨a, t, hfirst, hread, hshape⟩ h
    · exact ⟨_, .mismatched hfirst hread hshape⟩

theorem exists_firstSpoiled (hbefore : ∀ earlier ∈ front, Alike (front.headD text) earlier)
    (h : ¬ Alike (front.headD text) text) : ∃ fault, FirstSpoiled front text fault := by
  cases front with
  | nil =>
    rw [List.headD_nil] at h
    cases hread : SampleText.parse text with
    | error defect => exact ⟨_, hbefore, .malformed hread⟩
    | ok t => exact absurd ⟨t, t, hread, hread, rfl⟩ h
  | cons first front =>
    obtain ⟨a, _, hfirst, _⟩ := hbefore first List.mem_cons_self
    obtain ⟨fault, htold⟩ := exists_told hfirst ((first :: front).length + 1) h
    exact ⟨fault, hbefore, htold⟩

theorem alike_or_spoiled (first : List Char) (rest : List (List Char)) :
    (∀ text ∈ first :: rest, Alike first text) ∨ ∃ front text back fault,
      first :: rest = front ++ text :: back ∧ FirstSpoiled front text fault := by
  rcases forall_or_first (Alike first) (first :: rest) with
    hall | ⟨front, text, back, hsplit, hfront, htext⟩
  · exact Or.inl hall
  · rw [← headD_of_split hsplit] at hfront htext
    obtain ⟨fault, hspoiled⟩ := exists_firstSpoiled hfront htext
    exact Or.inr ⟨front, text, back, fault, hsplit, hspoiled⟩

/-! ## Reading them in turn -/

theorem readAll_of_alike {rest : List (List Char)}
    (h : ∀ text ∈ first :: rest, Alike first text) : ∃ ts, readAll (first :: rest) = .ok ts := by
  obtain ⟨a, _, hfirst, _⟩ := h first List.mem_cons_self
  obtain ⟨ts, hts⟩ := exists_forall₂ fun text hmem => (h text hmem).exists_tensor hfirst
  have hshapes : ∀ t ∈ ts, t.shape = a.shape := forall_right_of_forall₂ hts fun _ _ ht => ht.2
  refine ⟨ts, readAll_eq_ok_iff.mpr ⟨List.cons_ne_nil _ _, hts.imp fun _ _ ht => ht.1, ?_⟩⟩
  exact fun t ht other hother => (hshapes t ht).trans (hshapes other hother).symm

/-- Reading ends at the first text that is not like the others, and its place is counted on from
where reading began. -/
theorem readRest_of_told (hfirst : SampleText.parse first = .ok a)
    (hfront : ∀ earlier ∈ front, Alike first earlier)
    (h : Told first (index + front.length) text fault) :
    readRest a.shape index (front ++ text :: back) = .error fault := by
  induction front generalizing index with
  | nil =>
    rw [List.nil_append]
    unfold readRest
    cases h with
    | malformed hread =>
      rw [hread]
      rfl
    | mismatched hfirst' hread hne =>
      obtain rfl := Except.ok.inj (hfirst.symm.trans hfirst')
      rw [hread]
      dsimp only
      rw [if_neg hne]
      rfl
  | cons earlier front ih =>
    obtain ⟨hearlier, hfront⟩ := List.forall_mem_cons.mp hfront
    obtain ⟨t, hread, hshape⟩ := hearlier.exists_tensor hfirst
    rw [List.length_cons, Nat.add_comm front.length, ← Nat.add_assoc] at h
    rw [List.cons_append]
    unfold readRest
    rw [hread]
    dsimp only
    rw [if_pos hshape, ih hfront h]
    rfl

theorem readAll_cons_of_ok (hfirst : SampleText.parse first = .ok a) (rest : List (List Char)) :
    readAll (first :: rest) = (readRest a.shape 2 rest).map (a :: ·) := by
  unfold readAll
  dsimp only
  rw [hfirst]

theorem readAll_of_firstSpoiled (h : FirstSpoiled front text fault) (back : List (List Char)) :
    readAll (front ++ text :: back) = .error fault := by
  obtain ⟨hbefore, hhere⟩ := h
  cases front with
  | nil =>
    cases hhere with
    | malformed hread =>
      rw [List.nil_append]
      unfold readAll
      dsimp only
      rw [hread]
      rfl
    | mismatched hfirst hread hne =>
      -- The first text cannot have another shape than itself.
      obtain rfl := Except.ok.inj (hfirst.symm.trans hread)
      exact absurd rfl hne
  | cons first front =>
    rw [List.headD_cons] at hbefore hhere
    obtain ⟨⟨a, _, hfirst, _⟩, hbefore⟩ := List.forall_mem_cons.mp hbefore
    have hplace : (first :: front).length + 1 = 2 + front.length := by
      rw [List.length_cons]
      omega
    rw [hplace] at hhere
    rw [List.cons_append, readAll_cons_of_ok hfirst, readRest_of_told hfirst hbefore hhere]
    rfl

theorem readAll_eq_empty_iff : readAll texts = .error .empty ↔ texts = [] := by
  constructor
  · intro h
    cases texts with
    | nil => rfl
    | cons first rest =>
      rcases alike_or_spoiled first rest with hall | ⟨front, text, back, fault, hsplit, hspoiled⟩
      · obtain ⟨ts, hts⟩ := readAll_of_alike hall
        cases hts.symm.trans h
      · rw [hsplit, readAll_of_firstSpoiled hspoiled] at h
        obtain rfl := Except.error.inj h
        cases hspoiled.here
  · rintro rfl
    rfl

theorem readAll_eq_error_iff (hfault : fault ≠ .empty) : readAll texts = .error fault ↔
    ∃ front text back, texts = front ++ text :: back ∧ FirstSpoiled front text fault := by
  constructor
  · intro h
    cases texts with
    | nil => exact absurd (Except.error.inj h).symm hfault
    | cons first rest =>
      rcases alike_or_spoiled first rest with hall | ⟨front, text, back, fault', hsplit, hspoiled⟩
      · obtain ⟨ts, hts⟩ := readAll_of_alike hall
        cases hts.symm.trans h
      · have htold := hsplit ▸ readAll_of_firstSpoiled hspoiled back
        obtain rfl := Except.error.inj (htold.symm.trans h)
        exact ⟨front, text, back, hsplit, hspoiled⟩
  · rintro ⟨front, text, back, rfl, hspoiled⟩
    exact readAll_of_firstSpoiled hspoiled back

/-! ## The law -/

structure ReadTogether (texts : List (List Char)) : Prop where
  empty_iff : readAll texts = .error .empty ↔ texts = []
  /-- Texts are read exactly if there are some, each is read by itself, and all come to one shape.
  They are read to what each is read to, in their order. -/
  accepted_iff : ∀ ts, readAll texts = .ok ts ↔
    texts ≠ [] ∧ ReadAs texts ts ∧ ∀ a ∈ ts, ∀ b ∈ ts, a.shape = b.shape
  /-- Texts that are not read are refused for the first one that is not like the first of all. -/
  refused_iff : ∀ fault, fault ≠ .empty → (readAll texts = .error fault ↔
    ∃ front text back, texts = front ++ text :: back ∧ FirstSpoiled front text fault)
  /-- What comes after that one has no influence. -/
  rest_ignored : ∀ front text back fault, texts = front ++ text :: back →
    FirstSpoiled front text fault → ∀ other, readAll (front ++ text :: other) = .error fault
  before_accepted : ∀ front text back fault, texts = front ++ text :: back →
    FirstSpoiled front text fault → front ≠ [] → ∃ ts, readAll front = .ok ts

/-- Samples are read together if all of them can be and have one shape. Else the first one that
cannot, or has not the shape of the first of all, is told, with its place among them. -/
theorem the_first_sample_that_spoils_is_told (texts : List (List Char)) : ReadTogether texts where
  empty_iff := readAll_eq_empty_iff
  accepted_iff _ := readAll_eq_ok_iff
  refused_iff _ := readAll_eq_error_iff
  rest_ignored _ _ _ _ _ hspoiled := readAll_of_firstSpoiled hspoiled
  before_accepted front _ _ _ _ hspoiled hne := by
    cases front with
    | nil => exact absurd rfl hne
    | cons first front => exact readAll_of_alike hspoiled.before

example : readAll ["1 2".toList, "3 4".toList, "5".toList, "x".toList] =
    .error (.shapeMismatch 3 [2] [1]) := by decide +kernel

end NetEditor.Batch
