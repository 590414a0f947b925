-- JSON text: compact, with members in the order in which they are given.
import NetEditor.Json.Basic
import NetEditor.Numeric.Layout

namespace NetEditor.Json

/-- Numbers are plain in the middle of their range, whole ones end in a point and a zero, and
of two shortest decimals equally near the even one is taken. -/
def doubleStyle : NumberStyle := ⟨false, fun lead => -5 ≤ lead && lead < 16, true⟩

/-- The shorter format has a plain range of its own. -/
def singleStyle : NumberStyle := ⟨false, fun lead => -6 ≤ lead && lead < 13, true⟩

def Number.render : Number → String
  | .whole n => toString n
  | .double x _ => x.text doubleStyle
  | .single x _ => x.text singleStyle

def hexDigit (n : Nat) : Char := "0123456789abcdef".toList.getD n '0'

/-- Quotes, backslashes and control characters are escaped, and nothing else. -/
def escape (c : Char) : List Char :=
  match c with
  | '"' => ['\\', '"']
  | '\\' => ['\\', '\\']
  | '\x08' => ['\\', 'b']
  | '\x0c' => ['\\', 'f']
  | '\n' => ['\\', 'n']
  | '\r' => ['\\', 'r']
  | '\t' => ['\\', 't']
  | c => if c.toNat < 0x20 then
      ['\\', 'u', '0', '0', hexDigit (c.toNat / 16), hexDigit (c.toNat % 16)]
    else [c]

def quote (s : String) : String := "\"" ++ String.ofList (s.toList.flatMap escape) ++ "\""

mutual

def render : Json → String
  | .null => "null"
  | .bool b => if b then "true" else "false"
  | .number n => n.render
  | .text s => quote s
  | .array items => "[" ++ renderItems "" items ++ "]"
  | .object fields => "\x7b" ++ renderFields "" fields ++ "\x7d"

/-- The items, each after a separator: nothing before the first, a comma before the rest. -/
def renderItems (separator : String) : List Json → String
  | [] => ""
  | item :: rest => separator ++ item.render ++ renderItems "," rest

def renderFields (separator : String) : List (String × Json) → String
  | [] => ""
  | (key, value) :: rest =>
    separator ++ quote key ++ ":" ++ value.render ++ renderFields "," rest

end

example : (double (.ofWhole .double false (Nat.pow 10 15))).render = "1000000000000000.0" := by
  decide +kernel

example : (double (.ofWhole .double false (Nat.pow 10 16))).render = "1e+16" := by decide +kernel

example : (double (.ofRatio .double true 3 2000000)).render = "-1.5e-6" := by decide +kernel

/-- A quarter between two tenths that are equally near goes to the even one. -/
example : (single (.ofRatio .single false 8388609 4)).render = "2097152.2" := by decide +kernel

example : (object [("a", array [null, text "\t\""])]).render =
    "\x7b\"a\":[null,\"\\t\\\"\"]\x7d" := by decide +kernel

end NetEditor.Json
