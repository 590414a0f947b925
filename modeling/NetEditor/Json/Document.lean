-- JSON documents as written: numerals and quoted texts are not looked into yet, members stand
-- in the order of the text and may repeat. Reading one is a walk over its tokens with the open
-- lists and objects in hand, so that no depth of nesting is too deep for it.
import NetEditor.Json.Token
import NetEditor.Json.Numeral

namespace NetEditor.Json

inductive Document
  | null
  | bool (b : Bool)
  | numeral (n : Numeral)
  | text (pieces : List Piece)
  | list (items : List Document)
  | map (members : List (List Piece × Document))

namespace Document

/-- A list or an object that is still open, with its finished parts last first. In an object
the key is the one whose value comes next. -/
inductive Frame
  | items (done : List Document)
  | members (done : List (List Piece × Document)) (key : List Piece)

/-- What the next token has to be. -/
inductive State
  | value (up : List Frame)
  | firstItem (up : List Frame)
  | firstKey (up : List Frame)
  | key (done : List (List Piece × Document)) (up : List Frame)
  | colon (done : List (List Piece × Document)) (name : List Piece) (up : List Frame)
  | afterItem (done : List Document) (up : List Frame)
  | afterMember (done : List (List Piece × Document)) (up : List Frame)
  | finished (d : Document)

/-- Puts a finished value where one was due. -/
def supply (d : Document) : List Frame → State
  | [] => .finished d
  | .items done :: up => .afterItem (d :: done) up
  | .members done key :: up => .afterMember ((key, d) :: done) up

def ofWord? (letters : List Char) : Option Document :=
  if letters = "null".toList then some .null
  else if letters = "true".toList then some (.bool true)
  else if letters = "false".toList then some (.bool false)
  else (Numeral.read? letters).map .numeral

def State.start? (up : List Frame) : Token → Option State
  | .listOpen => some (.firstItem up)
  | .mapOpen => some (.firstKey up)
  | .text pieces => some (supply (.text pieces) up)
  | .word letters => (ofWord? letters).map fun d => supply d up
  | _ => none

def State.step? : State → Token → Option State
  | .value up, token => start? up token
  | .firstItem up, .listClose => some (supply (.list []) up)
  | .firstItem up, token => start? (.items [] :: up) token
  | .firstKey up, .mapClose => some (supply (.map []) up)
  | .firstKey up, .text name => some (.colon [] name up)
  | .key done up, .text name => some (.colon done name up)
  | .colon done name up, .colon => some (.value (.members done name :: up))
  | .afterItem done up, .comma => some (.value (.items done :: up))
  | .afterItem done up, .listClose => some (supply (.list done.reverse) up)
  | .afterMember done up, .comma => some (.key done up)
  | .afterMember done up, .mapClose => some (supply (.map done.reverse) up)
  | _, _ => none

def walk? (state : State) : List Token → Option Document
  | [] => match state with
    | .finished d => some d
    | _ => none
  | token :: rest =>
    match state.step? token with
    | some next => walk? next rest
    | none => none

/-- Reads a text that is one document, blanks around it allowed. -/
def read? (text : String) : Option Document :=
  match Token.ofText? text.toList with
  | some tokens => walk? (.value []) tokens
  | none => none

end Document

end NetEditor.Json
