-- The law of independent cells. However a record is called on, each of its parameters holds what
-- the last call for it that was taken has put there, and no call goes by what the record holds.
import NetEditor.Proofs.Layer.Calls
import NetEditor.Proofs.Lists

namespace NetEditor.Layer

/-! ## What is listed -/

/-- The cells in turn are those that are read under the names in turn. -/
theorem zip_cells {params : List Param} {cells : List (Option Value)}
    (hnames : (params.map (·.name)).Nodup) (hfits : fitsSchema params cells = true) :
    (params.map (·.name)).zip cells =
      params.map fun param => (param.name, readCell param.name params cells) := by
  fun_induction fitsSchema params cells with
  | case1 => rfl
  | case2 param params cell cells ih =>
    simp only [Bool.and_eq_true] at hfits
    rw [List.map_cons, List.nodup_cons] at hnames
    rw [List.map_cons, List.zip_cons_cons, List.map_cons, ih hnames.2 hfits.2]
    congr 1
    · simp [readCell]
    · refine List.map_congr_left fun other hother => ?_
      have hne : param.name ≠ other.name := fun heq => hnames.1 (heq ▸ List.mem_map_of_mem hother)
      simp [readCell, hne]
  | case3 => simp at hfits

namespace Record

variable {r s : Record} {name : String} {value : Double} {calls : List (String × Double)}

theorem values_eq (r : Record) :
    r.values = r.kind.schema.map fun param => (param.name, r.get? param.name) :=
  zip_cells r.kind.schema_names_nodup r.fits

theorem get?_and_set_of_notMem (h : name ∉ r.kind.schema.map (·.name)) :
    r.get? name = none ∧ ∀ value, r.set name value = .error (.unknown r.kind name) := by
  have hne : ∀ param ∈ r.kind.schema, param.name ≠ name :=
    fun param hp heq => h (heq ▸ List.mem_map_of_mem hp)
  have hnone : r.kind.param? name = none := by
    unfold Kind.param?
    simpa using hne
  exact ⟨readCell_eq_none hne r.cells, fun _ => set_eq_error_iff.mpr (Or.inl ⟨hnone, rfl⟩)⟩

/-! ## Calls in turn -/

def attempts (r : Record) (calls : List (String × Double)) : Record :=
  calls.foldl (fun now call => (now.attempt call.1 call.2).2) r

def Taken (r : Record) (call : String × Double) : Prop := (r.attempt call.1 call.2).1 = none

theorem attempts_cons (call : String × Double) :
    r.attempts (call :: calls) = (r.attempt call.1 call.2).2.attempts calls := rfl

theorem attempts_append (front back : List (String × Double)) :
    r.attempts (front ++ back) = (r.attempts front).attempts back := List.foldl_append

theorem kind_attempts (r : Record) (calls : List (String × Double)) :
    (r.attempts calls).kind = r.kind := by
  induction calls generalizing r with
  | nil => rfl
  | cons call rest ih => rw [attempts_cons, ih, kind_attempt]

/-- The kind alone decides which calls are taken. -/
theorem taken_iff (h : s.kind = r.kind) (call : String × Double) : s.Taken call ↔ r.Taken call := by
  rw [Taken, Taken, attempt_fault_eq h]

theorem attempt_of_not_taken (h : ¬ r.Taken (name, value)) : (r.attempt name value).2 = r := by
  cases hset : r.set name value with
  | error fault => rw [attempt_of_error hset]
  | ok s => exact absurd (congrArg Prod.fst (attempt_of_ok hset)) h

/-- A call that is taken stores what the constraint makes of its number. -/
theorem get?_attempt_of_taken (h : r.Taken (name, value)) :
    ∃ param v, r.kind.param? name = some param ∧ param.constraint.check name value = .ok v ∧
      (r.attempt name value).2.get? name = some v := by
  cases hset : r.set name value with
  | error fault => cases (congrArg Prod.fst (attempt_of_error hset)).symm.trans h
  | ok s =>
    rw [attempt_of_ok hset]
    exact get?_set_self hset

theorem get?_attempts_of_not_taken (h : ∀ call ∈ calls, call.1 = name → ¬ r.Taken call) :
    (r.attempts calls).get? name = r.get? name := by
  induction calls generalizing r with
  | nil => rfl
  | cons call rest ih =>
    obtain ⟨hcall, hrest⟩ := List.forall_mem_cons.mp h
    have hkind := kind_attempt r call.1 call.2
    rw [attempts_cons, ih fun later hlater hname => mt (taken_iff hkind later).mp
      (hrest later hlater hname)]
    by_cases hname : call.1 = name
    · rw [attempt_of_not_taken (hcall hname)]
    · exact get?_attempt_of_ne r (Ne.symm hname) call.2

/-! ## The law -/

structure IndependentCells (r : Record) (calls : List (String × Double)) : Prop where
  kind_kept : (r.attempts calls).kind = r.kind
  /-- A call is answered the same at all times, whatever the record holds. -/
  answered_alike : ∀ s : Record, s.kind = r.kind → ∀ name value,
    (s.attempt name value).1 = (r.attempt name value).1
  /-- A parameter holds what its constraint made of the number of the last call that was taken for
  it. -/
  last_stored : ∀ param ∈ r.kind.schema, ∀ front value back,
    calls = front ++ (param.name, value) :: back → r.Taken (param.name, value) →
    (∀ later ∈ back, later.1 = param.name → ¬ r.Taken later) →
    ∃ v, param.constraint.check param.name value = .ok v ∧
      (r.attempts calls).get? param.name = some v
  else_kept : ∀ name, (∀ call ∈ calls, call.1 = name → ¬ r.Taken call) →
    (r.attempts calls).get? name = r.get? name
  no_other : ∀ name, name ∉ r.kind.schema.map (·.name) → (r.attempts calls).get? name = none ∧
    ∀ value, (r.attempts calls).set name value = .error (.unknown r.kind name)
  /-- All parameters are listed once, in the order of the schema. -/
  listed : (r.attempts calls).values =
      r.kind.schema.map (fun param => (param.name, (r.attempts calls).get? param.name)) ∧
    ((r.attempts calls).values.map Prod.fst).Nodup

/-- Whatever calls are made on a record, in whatever order, each goes to its own parameter only. -/
theorem parameters_are_independent_cells (r : Record) (calls : List (String × Double)) :
    r.IndependentCells calls where
  kind_kept := kind_attempts r calls
  answered_alike _ hkind := attempt_fault_eq hkind
  last_stored param hp front value back hcalls htaken hlater := by
    subst hcalls
    have hkind := kind_attempts r front
    obtain ⟨found, v, hfound, hv, hget⟩ :=
      get?_attempt_of_taken ((taken_iff hkind (param.name, value)).mpr htaken)
    rw [hkind, Kind.param?_of_mem hp] at hfound
    obtain rfl := Option.some.inj hfound
    refine ⟨v, hv, ?_⟩
    rw [attempts_append, attempts_cons, get?_attempts_of_not_taken, hget]
    exact fun later hm hname => mt (taken_iff ((kind_attempt _ _ _).trans hkind) later).mp
      (hlater later hm hname)
  else_kept _ := get?_attempts_of_not_taken
  no_other _ hname := by
    have hother := get?_and_set_of_notMem ((kind_attempts r calls).symm ▸ hname)
    rwa [kind_attempts] at hother
  listed := by
    have hvalues := values_eq (r.attempts calls)
    rw [kind_attempts] at hvalues
    refine ⟨hvalues, ?_⟩
    rw [hvalues, List.map_map]
    exact r.kind.schema_names_nodup

/-- A chance of two and a parameter of other layers are refused, and the chance before stays. -/
example :
    let quarter : Double := .ofRatio .double false 1 4
    let two : Double := .ofWhole .double false 2
    ((initial .dropout).attempts [("p", quarter), ("p", two), ("stride", two)]).values =
      [("p", some (.real (.ofRatio .single false 1 4)))] := by decide +kernel

end Record

end NetEditor.Layer
