-- How reports are read. A report without an error comes of an object that names none, and a text
-- that is no report is kept whole.
import NetEditor.Proofs.Lists
import NetEditor.Training.Exchange

namespace NetEditor.Training.Report

variable {complain : String → String} {raw : String} {report : Report} {fault : Fault}
  {fields : Dictionary Json}

/-- Whatever stands under one of these names is null. -/
def AllNull (fields : Dictionary Json) (names : List String) : Prop :=
  ∀ name ∈ names, ∀ value, fields.get? name = some value → value = .null

theorem isNull_iff {value : Json} : value.isNull = true ↔ value = .null := by
  cases value <;> simp [Json.isNull]

theorem field?_eq_none_iff {names : List String} :
    field? fields names = none ↔ AllNull fields names := by
  simp [field?, AllNull, List.findSome?_eq_none_iff, Option.filter_eq_none_iff, isNull_iff]

/-- What is read is an object, and its error is the first that is there and not null. -/
theorem of_read_ok (h : read complain raw = .ok report) :
    ∃ fields, Json.read? raw = some (.object fields) ∧
      (report.error = none ↔ AllNull fields ["error", "detail"]) := by
  unfold read at h
  split at h
  · cases h
  · rename_i value hvalue
    split at h
    · cases h
    · rename_i found hfound
      cases h
      cases value with
      | object fields =>
        refine ⟨fields, hvalue, ?_⟩
        obtain ⟨losses, _, rfl⟩ := Except.map_eq_ok_iff.mp hfound
        rw [Option.map_eq_none_iff, field?_eq_none_iff]
      | _ => cases hfound

/-- What cannot be read is kept whole. -/
theorem of_read_error (h : read complain raw = .error fault) :
    ∃ reason, fault = .unreadable reason raw := by
  unfold read at h
  split at h
  · cases h
    exact ⟨_, rfl⟩
  · split at h
    · cases h
      exact ⟨_, rfl⟩
    · cases h

end NetEditor.Training.Report
