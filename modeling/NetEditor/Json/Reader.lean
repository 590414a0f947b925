-- The meaning of documents: which JSON value a document stands for, and how records with named
-- fields are taken from one.
import NetEditor.Json.Document

namespace NetEditor.Json

/-- A value lies in at most this many lists and objects. -/
def deepest : Nat := 127

namespace Document

mutual

/-- The value of a document with room for so many nested lists and objects. Every numeral
has to have a number and every quoted text a meaning, also in members that a later one
replaces. -/
def value? (room : Nat) : Document → Option Json
  | .null => some .null
  | .bool b => some (.bool b)
  | .numeral n => n.number?.map .number
  | .text pieces => (Piece.text? pieces).map .text
  | .list items => if room = 0 then none else (values? (room - 1) items).map .array
  | .map members =>
    if room = 0 then none
    else (fields? (room - 1) members).map fun fields => .object (Dictionary.ofPairs fields)

def values? (room : Nat) : List Document → Option (List Json)
  | [] => some []
  | d :: rest =>
    match value? room d with
    | some item => (values? room rest).map (item :: ·)
    | none => none

def fields? (room : Nat) : List (List Piece × Document) → Option (List (String × Json))
  | [] => some []
  | (key, d) :: rest =>
    match Piece.text? key, value? room d with
    | some name, some value => (fields? room rest).map ((name, value) :: ·)
    | _, _ => none

end

def number? : Document → Option Number
  | .numeral n => n.number?
  | _ => none

def text? : Document → Option String
  | .text pieces => Piece.text? pieces
  | _ => none

/-- A whole number that fits a word. -/
def count? (d : Document) : Option Nat :=
  match d.number? with
  | some (.whole n) => if 0 ≤ n then some n.toNat else none
  | _ => none

/-- Takes the known members, none of them twice. Other members are passed over unread, but
their keys have to be texts. -/
def pick? (names : List String) (found : Dictionary Document) :
    List (List Piece × Document) → Option (Dictionary Document)
  | [] => some found
  | (key, d) :: rest =>
    match Piece.text? key with
    | none => none
    | some name =>
      if names.contains name then
        if (found.get? name).isSome then none else pick? names (found.insert name d) rest
      else pick? names found rest

/-- The fields of a record: the members of an object by name, or the items of a list in the
order of the names, of which the last ones may be missing. -/
def record? (names : List String) : Document → Option (Dictionary Document)
  | .map members => pick? names [] members
  | .list items =>
    if items.length ≤ names.length then some (Dictionary.ofPairs (names.zip items)) else none
  | _ => none

end Document

def read? (text : String) : Option Json :=
  match Document.read? text with
  | some d => d.value? deepest
  | none => none

end NetEditor.Json
