-- Tensors as nested lists: one level of lists for each axis, and numbers inside. Reading takes
-- the shape from the first items on the way down and then holds everything to it.
import NetEditor.Tensor.Basic

namespace NetEditor.Tensor

/-- The first `count` runs of `size` elements. -/
def chunks (count size : Nat) (data : List Single) : List (List Single) :=
  match count with
  | 0 => []
  | count + 1 => data.take size :: chunks count size (data.drop size)

/-- Elements in row-major order as nested lists. -/
def nest : (shape : List Nat) → List Single → Json
  | [], data => .single (data.headD (.zero .single false))
  | n :: rest, data => .array ((chunks n (volume rest) data).map (nest rest))

def nested (t : Tensor) : Json := nest t.shape t.data

def toJson (t : Tensor) : Json :=
  .object [("data", t.nested), ("shape", .array (t.shape.map .count))]

/-- The lengths of the lists met when one always goes into the first item. -/
def spine : Json → List Nat
  | .array [] => [0]
  | .array (first :: rest) => (rest.length + 1) :: spine first
  | _ => []

mutual

/-- The numbers of a value that has this shape, left to right. -/
def collect (shape : List Nat) : Json → Except Fault (List Single)
  | .array items =>
    match shape with
    | [] => .error .ragged
    | n :: rest => if items.length = n then collectItems rest items else .error .ragged
  | .number x => if shape = [] then .ok [x.toDouble.narrow] else .error .ragged
  | _ => .error .notNumeric

def collectItems (shape : List Nat) : List Json → Except Fault (List Single)
  | [] => .ok []
  | item :: rest =>
    match collect shape item with
    | .error fault => .error fault
    | .ok first => (collectItems shape rest).map (first ++ ·)

end

/-- Reads nested lists of equal lengths at each level; a number alone is a tensor without
axes. -/
def ofNested (value : Json) : Except Fault Tensor :=
  match collect (spine value) value with
  | .ok data => ofData data (spine value)
  | .error fault => .error fault

end NetEditor.Tensor
