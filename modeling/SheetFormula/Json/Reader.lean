import SheetFormula.Json.Number
import SheetFormula.Json.Value

/-!
# Reading JSON

A machine with a stack of open arrays and objects reads a value from the front of a text and leaves
the rest. Each of its rounds takes at least one byte, so the length of the text bounds the rounds.
-/

namespace SheetFormula.Json

def isSpace (b : UInt8) : Bool := b == ' ' || b == '\n' || b == '\t' || b == '\r'

/-- A text from its first token on. -/
def skipSpace (t : Text) : Text := t.dropWhile isSpace

/-- The value of four hexadecimal digits. -/
def unit? : Text → Option Nat
  | a :: b :: c :: d :: _ => do
    let w ← Text.hexValue? a
    let x ← Text.hexValue? b
    let y ← Text.hexValue? c
    let z ← Text.hexValue? d
    return w * 4096 + x * 256 + y * 16 + z
  | _ => none

/-- A code unit that stands for a character only as half of a pair. -/
def isSurrogate (n : Nat) : Bool := 0xD800 ≤ n && n ≤ 0xDFFF

/-- The bytes of a code unit; half a pair alone becomes the replacement character. -/
def unitBytes (n : Nat) : Text :=
  String.utf8EncodeChar (if isSurrogate n then '�' else Char.ofNat n)

/-- The bytes of two code units of which the first is a surrogate. -/
def pairBytes (n m : Nat) : Text :=
  if n < 0xDC00 && 0xDC00 ≤ m && m ≤ 0xDFFF then
    String.utf8EncodeChar (Char.ofNat ((n - 0xD800) * 1024 + (m - 0xDC00) + 0x10000))
  else unitBytes n ++ unitBytes m

/-- The bytes that an escape stands for and the number of bytes it takes after its backslash. -/
def escape? : Text → Option (Text × Nat)
  | [] => none
  | a :: rest =>
    if a = '"' || a = '\\' || a = '/' then some ([a], 1)
    else if a = 'b' then some ([8], 1)
    else if a = 'f' then some ([12], 1)
    else if a = 'n' then some ([10], 1)
    else if a = 'r' then some ([13], 1)
    else if a = 't' then some ([9], 1)
    else if a = 'u' then
      (unit? rest).bind fun n =>
        if isSurrogate n then
          match Text.dropStart? "\\u" (rest.drop 4) with
          | some more => (unit? more).map fun m => (pairBytes n m, 11)
          | none => some (unitBytes n, 5)
        else some (unitBytes n, 5)
    else none

/-- A string that has been read: its text, whether a raw control character stands in it before
any escape, and what follows. -/
structure StringRead where
  text : Text
  raw : Bool
  rest : Text
deriving DecidableEq, Repr

/-- Reads a string after its opening quote: `skip` bytes belong to the escape before, `done` is the
text so far in reverse. -/
def stringFrom : (skip : Nat) → (escaped raw : Bool) → (done : Text) → Text → Option StringRead
  | _, _, _, _, [] => none
  | skip + 1, escaped, raw, done, _ :: rest => stringFrom skip escaped raw done rest
  | 0, escaped, raw, done, b :: rest =>
    if b = '"' then some ⟨done.reverse, raw, rest⟩
    else if b = '\\' then
      match escape? rest with
      | some (bytes, n) => stringFrom n true raw (bytes.reverse ++ done) rest
      | none => none
    else stringFrom 0 escaped (raw || (!escaped && b < 0x20)) (b :: done) rest

/-- Reads a string after its opening quote. -/
def string? (t : Text) : Option StringRead := stringFrom 0 false false [] t

/-- Reads a quoted name after its opening quote, and the colon behind it. -/
def quotedName? (t : Text) : Option (Name × Text) := do
  let s ← string? t
  match skipSpace s.rest with
  | b :: rest =>
    if b = ':' then some (if s.raw then .raw s.text else .text s.text, rest) else none
  | [] => none

/-- Reads the name of a member that is not the first, and the colon behind it. -/
def laterName? (t : Text) : Option (Name × Text) :=
  match skipSpace t with
  | [] => none
  | a :: rest =>
    if a = '"' then quotedName? rest
    else
      match Text.dropStart? "null" (a :: rest) with
      | some more =>
        match skipSpace more with
        | b :: rest => if b = ':' then some (.null, rest) else none
        | [] => none
      | none => none

/-- Reads a value that is neither array nor object. -/
def scalar? (t : Text) : Option (Value × Text) :=
  match t with
  | [] => none
  | a :: rest =>
    if a = '"' then
      (string? rest).bind fun s => if s.raw then none else some (.string s.text, s.rest)
    else if a = 'n' then (Text.dropStart? "null" t).map (.null, ·)
    else if a = 't' then (Text.dropStart? "true" t).map (.bool true, ·)
    else if a = 'f' then (Text.dropStart? "false" t).map (.bool false, ·)
    else
      let spelling := t.takeWhile isNumberByte
      if isNumber spelling then some (.number spelling, t.dropWhile isNumberByte) else none

/-- An array or object of which the start has been read, its parts in reverse. -/
inductive Frame where
  | array (done : List Value)
  | object (done : List (Name × Value)) (name : Name)
deriving Repr

/-- How a value starts: with a part of its own to read next, or as a whole. -/
inductive Opening where
  | inside (frame : Frame) (rest : Text)
  | whole (v : Value) (rest : Text)
deriving Repr

/-- Reads the start of a value. -/
def opening? (t : Text) : Option Opening :=
  match skipSpace t with
  | [] => none
  | a :: rest =>
    if a = '[' then
      match skipSpace rest with
      | b :: more =>
        if b = ']' then some (.whole (.array []) more) else some (.inside (.array []) rest)
      | [] => none
    else if a = '\x7b' then
      match skipSpace rest with
      | b :: more =>
        if b = '\x7d' then some (.whole (.object []) more)
        else if b = '"' then
          (quotedName? more).map fun (name, rest) => .inside (.object [] name) rest
        else none
      | [] => none
    else (scalar? (a :: rest)).map fun (v, rest) => .whole v rest

/-- What to do after a value: read another part of an open frame, or nothing more. `room` is how
many more frames may be opened. -/
inductive Next where
  | part (room : Nat) (stack : List Frame) (rest : Text)
  | finished (v : Value) (rest : Text)
deriving Repr

/-- Hands a value to the innermost open frame, and closes every frame that ends there. -/
def close : (room : Nat) → List Frame → Value → Text → Option Next
  | _, [], v, t => some (.finished v t)
  | room, .array done :: stack, v, t =>
    match skipSpace t with
    | [] => none
    | b :: rest =>
      if b = ',' then some (.part room (.array (v :: done) :: stack) rest)
      else if b = ']' then close (room + 1) stack (.array (v :: done).reverse) rest
      else none
  | room, .object done name :: stack, v, t =>
    match skipSpace t with
    | [] => none
    | b :: rest =>
      if b = ',' then
        (laterName? rest).map fun (next, rest) =>
          .part room (.object ((name, v) :: done) next :: stack) rest
      else if b = '\x7d' then close (room + 1) stack (.object ((name, v) :: done).reverse) rest
      else none

/-- Runs the machine for at most `rounds` values. -/
def run : (rounds room : Nat) → List Frame → Text → Option (Value × Text)
  | 0, _, _, _ => none
  | rounds + 1, room, stack, t =>
    match opening? t with
    | none => none
    | some (.inside frame rest) =>
      match room with
      | 0 => none
      | room + 1 => run rounds room (frame :: stack) rest
    | some (.whole v rest) =>
      match close room stack v rest with
      | none => none
      | some (.part room stack rest) => run rounds room stack rest
      | some (.finished v rest) => some (v, rest)

/-- How many arrays and objects may be open at once. -/
def maxOpen : Nat := 10001

/-- Reads a value from the front of a text. -/
def read? (t : Text) : Option (Value × Text) := run t.length maxOpen [] t

/-- The value that a whole text spells. A zero byte after the value ends the text. -/
def document? (t : Text) : Option Value := do
  let (v, rest) ← read? t
  match skipSpace rest with
  | [] => some v
  | b :: _ => if b = 0 then some v else none

end SheetFormula.Json
