-- Tensors as data: a shape and the elements in row-major order. Nothing is computed with them.
import NetEditor.Json.Basic
import NetEditor.Text

namespace NetEditor

/-- The number of elements of a shape. A shape without axes has one. -/
def volume : List Nat → Nat
  | [] => 1
  | n :: rest => n * volume rest

namespace Tensor

/-- The largest volume that the axes which are not empty may span. -/
def volumeMax : Nat := Text.wordMax / 2

/-- The elements fill the shape, and its axes can be walked. -/
def Fits (shape : List Nat) (data : List Single) : Prop :=
  data.length = volume shape ∧ volume (shape.filter (· ≠ 0)) ≤ volumeMax

instance (shape : List Nat) (data : List Single) : Decidable (Fits shape data) :=
  inferInstanceAs (Decidable (_ ∧ _))

/-- Why there is no tensor. -/
inductive Fault
  | notNumeric
  | ragged
  | sizeMismatch (length : Nat) (shape : List Nat)
deriving DecidableEq, Repr

/-- A list of counts as shown to people. -/
def shapeText (shape : List Nat) : String :=
  "[" ++ String.intercalate ", " (shape.map fun n => toString n) ++ "]"

def Fault.message : Fault → String
  | notNumeric => "嵌套数组中存在非数值元素"
  | ragged => "嵌套数组各层长度不一致，无法构成张量"
  | sizeMismatch length shape =>
    "数据长度" ++ toString length ++ "与形状" ++ shapeText shape ++ "不匹配"

end Tensor

structure Tensor where
  shape : List Nat
  data : List Single
  fits : Tensor.Fits shape data
deriving DecidableEq

namespace Tensor

/-- The tensor with these elements, if they fill the shape. -/
def ofData (data : List Single) (shape : List Nat) : Except Fault Tensor :=
  if fits : Fits shape data then .ok ⟨shape, data, fits⟩
  else .error (.sizeMismatch data.length shape)

def rank (t : Tensor) : Nat := t.shape.length

def size (t : Tensor) : Nat := t.data.length

/-- The element at a place in row-major order. -/
def get? (t : Tensor) (index : Nat) : Option Single := t.data[index]?

theorem size_eq_volume (t : Tensor) : t.size = volume t.shape := t.fits.1

theorem ofData_of_fits {shape : List Nat} {data : List Single} (fits : Fits shape data) :
    ofData data shape = .ok ⟨shape, data, fits⟩ := by
  simp [ofData, fits]

theorem of_ofData_ok {data : List Single} {shape : List Nat} {t : Tensor}
    (h : ofData data shape = .ok t) : t.shape = shape ∧ t.data = data := by
  unfold ofData at h
  split at h
  · cases h
    exact ⟨rfl, rfl⟩
  · cases h

end Tensor

end NetEditor
