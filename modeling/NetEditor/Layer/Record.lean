-- The parameter values of one layer: one cell for each parameter of its kind, empty or with a
-- value of the parameter's form. Cells are independent: setting one leaves the others.
import NetEditor.Layer.Schema

namespace NetEditor.Layer

/-- One cell a parameter, each value of its parameter's form. -/
def fitsSchema : List Param → List (Option Value) → Bool
  | [], [] => true
  | param :: params, cell :: cells => cell.all param.constraint.carries && fitsSchema params cells
  | _, _ => false

def readCell (name : String) : List Param → List (Option Value) → Option Value
  | param :: params, cell :: cells =>
    if param.name = name then cell else readCell name params cells
  | _, _ => none

/-- Puts something else into the cell of the named parameter. -/
def writeCell (name : String) (content : Option Value) :
    List Param → List (Option Value) → List (Option Value)
  | param :: params, cell :: cells =>
    if param.name = name then content :: cells else cell :: writeCell name content params cells
  | _, cells => cells

theorem fitsSchema_writeCell {name : String} {content : Option Value} {params : List Param}
    {cells : List (Option Value)} (h : fitsSchema params cells = true)
    (hc : ∀ param, params.find? (fun p => p.name = name) = some param →
      content.all param.constraint.carries = true) :
    fitsSchema params (writeCell name content params cells) = true := by
  fun_induction writeCell name content params cells with
  | case1 param params cell cells hn =>
    simp only [fitsSchema, Bool.and_eq_true] at h ⊢
    exact ⟨hc param (by simp [hn]), h.2⟩
  | case2 param params cell cells hn ih =>
    simp only [fitsSchema, Bool.and_eq_true] at h ⊢
    exact ⟨h.1, ih h.2 fun p hp => hc p (by simpa [hn] using hp)⟩
  | case3 => exact h

theorem readCell_writeCell_of_ne {name other : String} (hne : other ≠ name)
    (content : Option Value) (params : List Param) (cells : List (Option Value)) :
    readCell other params (writeCell name content params cells) = readCell other params cells := by
  fun_induction writeCell name content params cells with
  | case1 param params cell cells hn => subst hn; simp [readCell, Ne.symm hne]
  | case2 param params cell cells hn ih => simp only [readCell, ih]
  | case3 => rfl

theorem readCell_writeCell_self {name : String} (content : Option Value) {params : List Param}
    {cells : List (Option Value)} (h : fitsSchema params cells = true)
    (hp : (params.find? fun p => p.name = name).isSome) :
    readCell name params (writeCell name content params cells) = content := by
  fun_induction writeCell name content params cells with
  | case1 param params cell cells hn => simp [readCell, hn]
  | case2 param params cell cells hn ih =>
    simp only [fitsSchema, Bool.and_eq_true] at h
    simpa [readCell, hn] using ih h.2 (by simpa [hn] using hp)
  | case3 params cells hne =>
    cases params with
    | nil => simp at hp
    | cons param params =>
      cases cells with
      | nil => simp [fitsSchema] at h
      | cons cell cells => exact absurd rfl (hne param params cell cells rfl)

structure Record where
  kind : Kind
  cells : List (Option Value)
  fits : fitsSchema kind.schema cells = true
deriving DecidableEq

namespace Record

/-- The values of a new layer. -/
def initial (kind : Kind) : Record :=
  ⟨kind, kind.schema.map (·.initial), by cases kind <;> rfl⟩

def get? (r : Record) (name : String) : Option Value := readCell name r.kind.schema r.cells

/-- All parameters in order, each with its value. -/
def values (r : Record) : List (String × Option Value) :=
  (r.kind.schema.map (·.name)).zip r.cells

/-- Sets the named parameter to the value that its constraint makes of a number. -/
def set (r : Record) (name : String) (value : Double) : Except Fault Record :=
  match hp : r.kind.param? name with
  | none => .error (.unknown r.kind name)
  | some param =>
    match hv : param.constraint.check name value with
    | .error fault => .error fault
    | .ok v => .ok
      { kind := r.kind
        cells := writeCell name (some v) r.kind.schema r.cells
        fits := fitsSchema_writeCell r.fits fun p h => by
          have same : p = param := Option.some.inj (h.symm.trans hp)
          subst same
          simpa using Constraint.carries_of_check hv }

/-- A call that sets the named parameter in place: what is wrong with the number, if anything, and
the record afterwards. -/
def attempt (r : Record) (name : String) (value : Double) : Option Fault × Record :=
  match r.set name value with
  | .ok next => (none, next)
  | .error fault => (some fault, r)

def clear (r : Record) (name : String) : Record :=
  { kind := r.kind
    cells := writeCell name none r.kind.schema r.cells
    fits := fitsSchema_writeCell r.fits fun _ _ => rfl }

/-- Equality with reals taken as numbers, so that a record with a `nan` is not even the same as
itself. -/
def same (a b : Record) : Bool :=
  a.kind = b.kind && (a.cells.zip b.cells).all fun pair =>
    match pair with
    | (none, none) => true
    | (some x, some y) => x.same y
    | _ => false

/-- What a call of `set` decides, whatever the record holds. -/
theorem set_eq_error_iff {r : Record} {name : String} {value : Double} {fault : Fault} :
    r.set name value = .error fault ↔
      (r.kind.param? name = none ∧ fault = .unknown r.kind name) ∨
      ∃ param, r.kind.param? name = some param ∧
        param.constraint.check name value = .error fault := by
  unfold set
  split
  · rename_i h
    simp [h, eq_comm]
  · rename_i param h
    split
    · rename_i e he
      simp [h, he]
    · rename_i v hv
      simp [h, hv]

theorem set_ok {r s : Record} {name : String} {value : Double} (h : r.set name value = .ok s) :
    ∃ param v, r.kind.param? name = some param ∧ param.constraint.check name value = .ok v ∧
      s.kind = r.kind ∧ s.cells = writeCell name (some v) r.kind.schema r.cells := by
  unfold set at h
  split at h
  · simp at h
  · rename_i param hp
    split at h
    · simp at h
    · rename_i v hv
      cases h
      exact ⟨param, v, hp, hv, rfl, rfl⟩

theorem attempt_of_ok {r s : Record} {name : String} {value : Double}
    (h : r.set name value = .ok s) : r.attempt name value = (none, s) := by
  simp [attempt, h]

theorem attempt_of_error {r : Record} {name : String} {value : Double} {fault : Fault}
    (h : r.set name value = .error fault) : r.attempt name value = (some fault, r) := by
  simp [attempt, h]

end Record

end NetEditor.Layer
