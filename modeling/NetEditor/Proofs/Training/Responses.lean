-- The law of responses. A report goes by eight fields of an object, three of which are second names
-- that count only where the first name shows nothing. Whatever else changes in a response is noise,
-- and of the losses none is left out or moved.
import NetEditor.Proofs.Training.Reports
import Mathlib.Logic.Relation

namespace NetEditor.Training.Report

variable {a b fields : Dictionary Json} {names : List String} {name : String} {value : Json}
  {complain : String → String} {raw : String} {fault : Fault}

/-! ## Fields that show a value -/

/-- There is a value under the name, and it is not null. -/
def Shows (fields : Dictionary Json) (name : String) (value : Json) : Prop :=
  fields.get? name = some value ∧ value ≠ .null

/-- The value is the first one shown under these names. -/
def ShowsFirst (fields : Dictionary Json) (names : List String) (value : Json) : Prop :=
  ∃ front name back, names = front ++ name :: back ∧ AllNull fields front ∧
    Shows fields name value

theorem not_allNull_iff :
    ¬ AllNull fields names ↔ ∃ name ∈ names, ∃ value, Shows fields name value := by
  simp [AllNull, Shows]

def shown? (fields : Dictionary Json) (name : String) : Option Json :=
  (fields.get? name).filter fun value => !value.isNull

theorem field?_eq_findSome? (fields : Dictionary Json) (names : List String) :
    field? fields names = names.findSome? (shown? fields) := rfl

theorem shown?_eq_some_iff : shown? fields name = some value ↔ Shows fields name value := by
  rw [shown?, Option.filter_eq_some_iff, Shows, ne_eq, ← isNull_iff, Bool.not_eq_true,
    Bool.not_eq_eq_eq_not, Bool.not_true]

theorem shown?_eq_none_iff : shown? fields name = none ↔ AllNull fields [name] := by
  rw [← field?_eq_none_iff, field?_eq_findSome?, List.findSome?_singleton]

theorem field?_eq_some_iff : field? fields names = some value ↔ ShowsFirst fields names value := by
  simp only [field?_eq_findSome?, List.findSome?_eq_some_iff, ShowsFirst, shown?_eq_some_iff]
  refine exists_congr fun front => exists_congr fun name => exists_congr fun back =>
    and_congr_right fun _ => ?_
  rw [and_comm, ← List.findSome?_eq_none_iff, ← field?_eq_findSome?, field?_eq_none_iff]

/-! ## Noise -/

/-- The names that are looked at together, each list from the first name to the last. -/
def lookups : List (List String) :=
  [["output", "outputs"], ["loss"], ["loss_history", "lossHistory"], ["error", "detail"],
    ["message"]]

/-- The names that are looked at at all. -/
def knownNames : List String :=
  ["output", "outputs", "loss", "loss_history", "lossHistory", "error", "detail", "message"]

def secondNames : List (String × String) :=
  [("output", "outputs"), ("loss_history", "lossHistory"), ("error", "detail")]

/-- The two objects differ under no other name. -/
def AlikeBut (name : String) (a b : Dictionary Json) : Prop :=
  ∀ other, other ≠ name → a.get? other = b.get? other

/-- A change of one field that does not matter. -/
inductive Noise (a b : Dictionary Json) : Prop
  /-- Anything may come of a field that is not looked at. -/
  | unknown {name : String} (hname : name ∉ knownNames) (h : AlikeBut name a b)
  /-- A null is as good as nothing. -/
  | null {name : String} (ha : AllNull a [name]) (hb : AllNull b [name]) (h : AlikeBut name a b)
  /-- Anything may come of a second name while the first one shows a value. -/
  | second {first name : String} {value : Json} (hname : (first, name) ∈ secondNames)
      (hfirst : Shows a first value) (h : AlikeBut name a b)

theorem mem_knownNames_of_mem_lookups : ∀ names ∈ lookups, ∀ name ∈ names, name ∈ knownNames := by
  decide

/-- A second name is looked at only after its first. -/
theorem eq_of_mem_secondNames : ∀ pair ∈ secondNames, pair.1 ≠ pair.2 ∧
    ∀ names ∈ lookups, pair.2 ∈ names → names = [pair.1, pair.2] := by decide

theorem field?_congr
    (h : ∀ name ∈ names, shown? a name = shown? b name) : field? a names = field? b names := by
  simp only [field?_eq_findSome?] at *
  induction names with
  | nil => rfl
  | cons name rest ih =>
    rw [List.forall_mem_cons] at h
    rw [List.findSome?_cons, List.findSome?_cons, h.1, ih h.2]

theorem field?_of_first {first second : String} (h : Shows a first value) :
    field? a [first, second] = some value :=
  field?_eq_some_iff.mpr ⟨[], first, [second], rfl, by simp [AllNull], h⟩

/-- Noise does not reach any of the values that a report is made of. -/
theorem Noise.field?_eq (h : Noise a b) : ∀ names ∈ lookups, field? a names = field? b names := by
  intro names hnames
  cases h with
  | @unknown name hname h =>
    refine field?_congr fun other hother => ?_
    have hne : other ≠ name :=
      fun heq => hname (heq ▸ mem_knownNames_of_mem_lookups names hnames other hother)
    rw [shown?, shown?, h other hne]
  | @null name ha hb h =>
    refine field?_congr fun other _ => ?_
    by_cases hother : other = name
    · rw [hother, shown?_eq_none_iff.mpr ha, shown?_eq_none_iff.mpr hb]
    · rw [shown?, shown?, h other hother]
  | @second first name _ hname hfirst h =>
    obtain ⟨hne, hpair⟩ := eq_of_mem_secondNames (first, name) hname
    by_cases hmem : name ∈ names
    · obtain rfl := hpair names hnames hmem
      have hfirst' : Shows b first _ := ⟨h first hne ▸ hfirst.1, hfirst.2⟩
      rw [field?_of_first hfirst, field?_of_first hfirst']
    · refine field?_congr fun other hother => ?_
      have hne : other ≠ name := fun heq => hmem (heq ▸ hother)
      rw [shown?, shown?, h other hne]

theorem ofFields_eq_of_noise (h : Relation.ReflTransGen Noise a b) : ofFields a = ofFields b := by
  induction h with
  | refl => rfl
  | tail _ hnoise ih =>
    rw [ih, ofFields, ofFields, hnoise.field?_eq ["output", "outputs"] (by decide),
      hnoise.field?_eq ["loss"] (by decide),
      hnoise.field?_eq ["loss_history", "lossHistory"] (by decide),
      hnoise.field?_eq ["error", "detail"] (by decide),
      hnoise.field?_eq ["message"] (by decide)]

/-! ## Losses -/

/-- The item is no number. -/
def NoNumber (item : Json) : Prop := ∀ n, item ≠ .number n

theorem toDouble?_eq_none_iff : value.toDouble? = none ↔ NoNumber value := by
  cases value <;> simp [Json.toDouble?, NoNumber]

theorem all_numbers_or_noNumber (items : List Json) :
    (∃ numbers : List Json.Number, items = numbers.map Json.number) ∨
      ∃ item ∈ items, NoNumber item := by
  induction items with
  | nil => exact Or.inl ⟨[], rfl⟩
  | cons item rest ih =>
    by_cases hitem : ∃ n, item = .number n
    · obtain ⟨n, rfl⟩ := hitem
      rcases ih with ⟨numbers, rfl⟩ | ⟨other, hother, hno⟩
      · exact Or.inl ⟨n :: numbers, rfl⟩
      · exact Or.inr ⟨other, List.mem_cons_of_mem _ hother, hno⟩
    · exact Or.inr ⟨item, List.mem_cons_self, not_exists.mp hitem⟩

theorem mapM_toDouble?_numbers (numbers : List Json.Number) :
    (numbers.map Json.number).mapM Json.toDouble? = some (numbers.map Json.Number.toDouble) := by
  induction numbers with
  | nil => rfl
  | cons n rest ih => simp [List.mapM_cons, ih, Json.toDouble?]

theorem mapM_toDouble?_of_noNumber {items : List Json} {item : Json} (hm : item ∈ items)
    (h : NoNumber item) : items.mapM Json.toDouble? = none := by
  induction items with
  | nil => simp at hm
  | cons first rest ih =>
    rw [List.mapM_cons]
    rcases List.mem_cons.mp hm with rfl | hm
    · rw [toDouble?_eq_none_iff.mpr h]
      rfl
    · rw [ih hm]
      cases first.toDouble? <;> rfl

theorem lossesOf_numbers (numbers : List Json.Number) :
    lossesOf (some (.array (numbers.map Json.number))) =
      .ok (some (numbers.map Json.Number.toDouble)) := by
  simp only [lossesOf, mapM_toDouble?_numbers]

theorem lossesOf_of_noNumber {items : List Json} {item : Json} (hm : item ∈ items)
    (h : NoNumber item) : lossesOf (some (.array items)) = .error .lossNotNumeric := by
  simp only [lossesOf, mapM_toDouble?_of_noNumber hm h]

theorem lossesOf_of_noArray {found : Option Json} (h : ∀ items, found ≠ some (.array items)) :
    lossesOf found = .ok none := by
  unfold lossesOf
  split
  · rename_i items
    exact absurd rfl (h items)
  · rfl

theorem lossesOf_eq_error_iff {found : Option Json} {reason : Unreadable} :
    lossesOf found = .error reason ↔ reason = .lossNotNumeric ∧
      ∃ items, found = some (.array items) ∧ ∃ item ∈ items, NoNumber item := by
  by_cases hfound : ∃ items, found = some (.array items)
  · obtain ⟨items, rfl⟩ := hfound
    rcases all_numbers_or_noNumber items with ⟨numbers, rfl⟩ | ⟨item, hm, hno⟩
    · simp [lossesOf_numbers, NoNumber]
    · have hsome : ∃ item ∈ items, NoNumber item := ⟨item, hm, hno⟩
      simp [lossesOf_of_noNumber hm hno, hsome, eq_comm]
  · rw [not_exists] at hfound
    simp [lossesOf_of_noArray hfound, hfound]

/-! ## Texts -/

/-- What is wrong with a text that is no report. -/
inductive Spoils (complain : String → String) (raw : String) : Unreadable → Prop
  | notJson (h : Json.read? raw = none) : Spoils complain raw (.notJson (complain raw))
  | notObject {value : Json} (h : Json.read? raw = some value)
      (hvalue : ∀ fields, value ≠ .object fields) : Spoils complain raw .notObject
  | losses {fields : Dictionary Json} {items : List Json} {item : Json}
      (h : Json.read? raw = some (.object fields))
      (hitems : ShowsFirst fields ["loss_history", "lossHistory"] (.array items))
      (hitem : item ∈ items) (hno : NoNumber item) : Spoils complain raw .lossNotNumeric

/-- The two come to the same, but for the text that is kept of a response that is not readable. -/
inductive SameButText : Except Fault Report → Except Fault Report → Prop
  | report (report : Report) : SameButText (.ok report) (.ok report)
  | unreadable (reason : Unreadable) (raw raw' : String) :
      SameButText (.error (.unreadable reason raw)) (.error (.unreadable reason raw'))

theorem read_of_fields_ok {report : Report} (h : Json.read? raw = some (.object fields))
    (hfields : ofFields fields = .ok report) : read complain raw = .ok report := by
  simp only [read, h, ofJson, hfields]

theorem read_of_fields_error {reason : Unreadable} (h : Json.read? raw = some (.object fields))
    (hfields : ofFields fields = .error reason) :
    read complain raw = .error (.unreadable reason raw) := by
  simp only [read, h, ofJson, hfields]

theorem sameButText_of_ofFields_eq {raw' : String} (ha : Json.read? raw = some (.object a))
    (hb : Json.read? raw' = some (.object b)) (h : ofFields a = ofFields b) :
    SameButText (read complain raw) (read complain raw') := by
  cases hfields : ofFields a with
  | ok report =>
    rw [read_of_fields_ok ha hfields, read_of_fields_ok hb (h ▸ hfields)]
    exact .report report
  | error reason =>
    rw [read_of_fields_error ha hfields, read_of_fields_error hb (h ▸ hfields)]
    exact .unreadable reason raw raw'

theorem ofFields_eq_error_iff {reason : Unreadable} :
    ofFields fields = .error reason ↔ reason = .lossNotNumeric ∧
      ∃ items, ShowsFirst fields ["loss_history", "lossHistory"] (.array items) ∧
        ∃ item ∈ items, NoNumber item := by
  simp only [ofFields, Except.map_eq_error_iff, lossesOf_eq_error_iff, field?_eq_some_iff]

/-- The losses of a report are those that its fields show. -/
theorem read_of_losses {losses : Option (List Double)} (h : Json.read? raw = some (.object fields))
    (hlosses : lossesOf (field? fields ["loss_history", "lossHistory"]) = .ok losses) :
    ∃ report, read complain raw = .ok report ∧ report.losses = losses :=
  ⟨_, read_of_fields_ok h (Except.map_eq_ok_iff.mpr ⟨losses, hlosses, rfl⟩), rfl⟩

theorem read_of_spoils {reason : Unreadable} (h : Spoils complain raw reason) :
    read complain raw = .error (.unreadable reason raw) := by
  cases h with
  | notJson h => rw [read, h]
  | @notObject value h hvalue =>
    rw [read, h]
    cases value with
    | object fields => exact absurd rfl (hvalue fields)
    | _ => rfl
  | losses h hitems hitem hno =>
    exact read_of_fields_error h (ofFields_eq_error_iff.mpr ⟨rfl, _, hitems, _, hitem, hno⟩)

theorem spoils_or_report (complain : String → String) (raw : String) :
    (∃ reason, Spoils complain raw reason) ∨
    ∃ fields report, Json.read? raw = some (.object fields) ∧ read complain raw = .ok report := by
  cases hjson : Json.read? raw with
  | none => exact Or.inl ⟨_, .notJson hjson⟩
  | some value =>
    by_cases hobject : ∃ fields, value = .object fields
    · obtain ⟨fields, rfl⟩ := hobject
      cases hfields : ofFields fields with
      | ok report => exact Or.inr ⟨fields, report, rfl, read_of_fields_ok hjson hfields⟩
      | error reason =>
        obtain ⟨_, items, hitems, item, hitem, hno⟩ := ofFields_eq_error_iff.mp hfields
        exact Or.inl ⟨_, .losses hjson hitems hitem hno⟩
    · exact Or.inl ⟨_, .notObject hjson (not_exists.mp hobject)⟩

theorem read_eq_error_iff : read complain raw = .error fault ↔
    ∃ reason, fault = .unreadable reason raw ∧ Spoils complain raw reason := by
  constructor
  · intro h
    rcases spoils_or_report complain raw with ⟨reason, hspoils⟩ | ⟨_, report, _, hread⟩
    · exact ⟨reason, Except.error.inj (h.symm.trans (read_of_spoils hspoils)), hspoils⟩
    · cases h.symm.trans hread
  · rintro ⟨reason, rfl, hspoils⟩
    exact read_of_spoils hspoils

/-! ## The law -/

structure ReadByFields (complain : String → String) (raw : String) : Prop where
  /-- Noise changes nothing, however much of it there is. -/
  noise_ignored : ∀ (raw' : String) (fields fields' : Dictionary Json),
    Json.read? raw = some (.object fields) → Json.read? raw' = some (.object fields') →
    Relation.ReflTransGen Noise fields fields' →
      SameButText (read complain raw) (read complain raw')
  /-- A text is refused, and kept whole, if it is no object or one of its losses is no number. -/
  refused_iff : ∀ fault, read complain raw = .error fault ↔
    ∃ reason, fault = .unreadable reason raw ∧ Spoils complain raw reason
  /-- Losses are kept in their number and order. -/
  losses_kept : ∀ (fields : Dictionary Json) (numbers : List Json.Number),
    Json.read? raw = some (.object fields) →
    ShowsFirst fields ["loss_history", "lossHistory"] (.array (numbers.map Json.number)) →
    ∃ report, read complain raw = .ok report ∧
      report.losses = some (numbers.map Json.Number.toDouble)
  /-- Where no list is shown there are no losses. -/
  no_losses : ∀ fields : Dictionary Json, Json.read? raw = some (.object fields) →
    (∀ items, ¬ ShowsFirst fields ["loss_history", "lossHistory"] (.array items)) →
    ∃ report, read complain raw = .ok report ∧ report.losses = none
  isError_iff : ∀ (fields : Dictionary Json) (report : Report),
    Json.read? raw = some (.object fields) → read complain raw = .ok report →
    (report.isError = true ↔ ∃ name ∈ ["error", "detail"], ∃ value, Shows fields name value)

/-- A response is read by eight fields, whatever else is in it, and all its losses are kept in their
order. -/
theorem a_response_is_read_by_its_fields (complain : String → String) (raw : String) :
    ReadByFields complain raw where
  noise_ignored raw' fields fields' hraw hraw' hnoise :=
    sameButText_of_ofFields_eq hraw hraw' (ofFields_eq_of_noise hnoise)
  refused_iff _ := read_eq_error_iff
  losses_kept fields numbers hraw hshown :=
    read_of_losses hraw (field?_eq_some_iff.mpr hshown ▸ lossesOf_numbers numbers)
  no_losses fields hraw hnone :=
    read_of_losses hraw (lossesOf_of_noArray fun items hfound =>
      hnone items (field?_eq_some_iff.mp hfound))
  isError_iff fields report hraw hread := by
    obtain ⟨found, hfound, hnone⟩ := of_read_ok hread
    obtain rfl := Json.object.inj (Option.some.inj (hfound.symm.trans hraw))
    rw [← not_allNull_iff, ← hnone, isError, Option.isSome_iff_ne_none]

/-- A null, a field that is not looked at and a second name do not come between the losses. -/
example :
    let raw := "\x7b\"epoch\":2,\"lossHistory\":\"no\",\"loss_history\":[1,2.5],\"error\":null\x7d"
    (read id raw).toOption.bind (·.losses) =
      some [.ofWhole .double false 1, .ofRatio .double false 5 2] := by decide +kernel

end NetEditor.Training.Report
