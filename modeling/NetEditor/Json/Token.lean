-- The tokens of JSON text. Quoted text is kept as it is written, because what a code after a
-- backslash stands for matters only where the text is used.

namespace NetEditor.Json

/-- A part of a quoted text: a character, or a 16-bit code written in hexadecimal digits. -/
inductive Piece
  | char (c : Char)
  | code (unit : Nat)
deriving DecidableEq, Repr

/-- A word is an unbroken run of letters, digits, signs and points. -/
inductive Token
  | listOpen
  | listClose
  | mapOpen
  | mapClose
  | comma
  | colon
  | text (pieces : List Piece)
  | word (letters : List Char)
deriving DecidableEq, Repr

namespace Piece

/-- The first half of a code pair. -/
def isLeading (unit : Nat) : Bool := 0xD800 ≤ unit && unit < 0xDC00

/-- The second half of a code pair. -/
def isTrailing (unit : Nat) : Bool := 0xDC00 ≤ unit && unit < 0xE000

/-- The characters behind the pieces, put behind those already read (last first). A half of
a pair without its other half stands for nothing. -/
def join? (before : List Char) : List Piece → Option (List Char)
  | [] => some before.reverse
  | .char c :: rest => join? (c :: before) rest
  | .code a :: .code b :: rest =>
    if isLeading a then
      if isTrailing b then
        join? (Char.ofNat (0x10000 + (a - 0xD800) * 0x400 + (b - 0xDC00)) :: before) rest
      else none
    else if isTrailing a then none
    else join? (Char.ofNat a :: before) (.code b :: rest)
  | .code a :: rest =>
    if isLeading a || isTrailing a then none else join? (Char.ofNat a :: before) rest

def text? (pieces : List Piece) : Option String := (join? [] pieces).map String.ofList

end Piece

namespace Token

/-- What the characters read so far belong to. Collected parts are kept last first. -/
inductive Scan
  | outside
  | word (letters : List Char)
  | text (pieces : List Piece)
  | escape (pieces : List Piece)
  | code (pieces : List Piece) (missing : Nat) (value : Nat)
deriving Repr

def isWordChar (c : Char) : Bool := c.isAlphanum || c = '+' || c = '-' || c = '.'

def hexValue? (c : Char) : Option Nat :=
  if '0' ≤ c && c ≤ '9' then some (c.toNat - 48)
  else if 'a' ≤ c && c ≤ 'f' then some (c.toNat - 87)
  else if 'A' ≤ c && c ≤ 'F' then some (c.toNat - 55)
  else none

def escaped? (c : Char) : Option Char :=
  match c with
  | '"' => some '"'
  | '\\' => some '\\'
  | '/' => some '/'
  | 'b' => some '\x08'
  | 'f' => some '\x0c'
  | 'n' => some '\n'
  | 'r' => some '\r'
  | 't' => some '\t'
  | _ => none

/-- A character between tokens: it is blank, a token by itself, or starts one. -/
def between? (done : List Token) (c : Char) : Option (Scan × List Token) :=
  match c with
  | ' ' | '\n' | '\r' | '\t' => some (.outside, done)
  | '[' => some (.outside, .listOpen :: done)
  | ']' => some (.outside, .listClose :: done)
  | '\x7b' => some (.outside, .mapOpen :: done)
  | '\x7d' => some (.outside, .mapClose :: done)
  | ',' => some (.outside, .comma :: done)
  | ':' => some (.outside, .colon :: done)
  | '"' => some (.text [], done)
  | c => if isWordChar c then some (.word [c], done) else none

/-- Reads one more character; finished tokens are kept last first. -/
def step? (scan : Scan) (done : List Token) (c : Char) : Option (Scan × List Token) :=
  match scan with
  | .outside => between? done c
  | .word letters =>
    if isWordChar c then some (.word (c :: letters), done)
    else between? (.word letters.reverse :: done) c
  | .text pieces =>
    if c = '"' then some (.outside, .text pieces.reverse :: done)
    else if c = '\\' then some (.escape pieces, done)
    else if c.toNat < 0x20 then none
    else some (.text (.char c :: pieces), done)
  | .escape pieces =>
    if c = 'u' then some (.code pieces 4 0, done)
    else (escaped? c).map fun plain => (.text (.char plain :: pieces), done)
  | .code pieces missing value =>
    (hexValue? c).map fun digit =>
      let value := 16 * value + digit
      if missing ≤ 1 then (.text (.code value :: pieces), done)
      else (.code pieces (missing - 1) value, done)

/-- The tokens at the end of the text; a quoted text has to be closed by then. -/
def finish? (scan : Scan) (done : List Token) : Option (List Token) :=
  match scan with
  | .outside => some done.reverse
  | .word letters => some ((.word letters.reverse :: done).reverse)
  | _ => none

def scan? (scan : Scan) (done : List Token) : List Char → Option (List Token)
  | [] => finish? scan done
  | c :: rest =>
    match step? scan done c with
    | some (scan, done) => scan? scan done rest
    | none => none

def ofText? (text : List Char) : Option (List Token) := scan? .outside [] text

end Token

end NetEditor.Json
