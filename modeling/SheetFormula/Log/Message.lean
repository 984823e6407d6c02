import SheetFormula.Text.Quoted

/-!
# Filling in messages

A pattern for a message has places for texts. A place is a percent sign and a letter: `s` and `v`
for the text itself, `q` for the text in quotes, `x` and `X` for its bytes in hexadecimal. Between
the two may stand flags, the number of an argument in brackets, a width, and a precision behind a
point. Two percent signs stand for one. A place that cannot be filled, and an argument without a
place, are shown as such.
-/

namespace SheetFormula.Message

/-- How a place is filled. -/
structure Style where
  /-- The flag `#`: another form. -/
  alternate : Bool := false
  /-- The flag `0`: zeros make up the width. -/
  zeros : Bool := false
  /-- The flag `+`: quotes hold only ASCII. -/
  ascii : Bool := false
  /-- The flag `-`: the width is made up on the right. -/
  left : Bool := false
  /-- The flag for blanks between bytes. -/
  spaced : Bool := false
  width : Option Nat := none
  precision : Option Nat := none
deriving DecidableEq, Repr

namespace Style

/-- Makes up the width of a text that is `size` wide. -/
def pad (s : Style) (size : Nat) (t : Text) : Text :=
  let filler (b : UInt8) : Text := List.replicate (s.width.getD 0 - size) b
  if s.left then t ++ filler ' ' else filler (if s.zeros then '0' else ' ') ++ t

/-- A text as wide as it has symbols. -/
def padded (s : Style) (t : Text) : Text := s.pad t.symbols.length t

/-- The symbols of a text that the precision admits. -/
def cut (s : Style) (t : Text) : Text :=
  match s.precision with
  | some n => Text.ofSymbols (t.symbols.take n)
  | none => t

def plain (s : Style) (t : Text) : Text := s.padded (s.cut t)

/-- Whether a text can stand between backquotes. -/
def isRaw (t : Text) : Bool :=
  t.symbols.all fun
    | .stray _ => false
    | .char c =>
      c != '\x60' && c != '\x7f' && c != '\ufeff' && (c == '\t' || ' ' ≤ c)

def quote (s : Style) (t : Text) : Text :=
  let t := s.cut t
  s.padded (if s.alternate && isRaw t then "\x60" ++ t ++ "\x60"
    else if s.ascii then t.quotedAscii else t.quoted)

/-- The bytes that the precision admits in hexadecimal, with a sign for the base in the other
form: one for all bytes, or one for each when they are apart. -/
def hexadecimal (s : Style) (sign : Text) (t : Text) : Text :=
  let bytes := match s.precision with
    | some n => t.take n
    | none => t
  let sign := Text.when s.alternate sign
  let digits := bytes.map fun b => Text.hex 2 b.toNat
  let written : Text :=
    if bytes.isEmpty then []
    else if s.spaced then Text.join " " (digits.map (sign ++ ·))
    else sign ++ digits.flatten
  s.pad written.length written

end Style

/-- Capital letters for the small ones. -/
def upper (t : Text) : Text := t.map fun b : UInt8 => if 'a' ≤ b && b ≤ 'z' then b - 32 else b

/-- The letter of a place in a report on it. -/
def letterText (letter : Symbol) : Text := String.utf8EncodeChar letter.toChar

/-- An argument where its kind is told. -/
def described (t : Text) : Text := "string=" ++ t

/-- A report on a letter that no text goes with. -/
def refused (letter : Symbol) (t : Text) : Text :=
  "%!" ++ letterText letter ++ "(" ++ described t ++ ")"

/-- An argument as a value: in quotes in the other form. -/
def value (s : Style) (arg : Text) : Text :=
  if s.alternate then { s with alternate := false, ascii := false }.quote arg else s.plain arg

/-- A filled place. -/
def filled (s : Style) (arg : Text) : (letter : Symbol) → Text
  | .char 's' => s.plain arg
  | .char 'v' => value s arg
  | .char 'q' => s.quote arg
  | .char 'x' => s.hexadecimal "0x" arg
  | .char 'X' => upper (s.hexadecimal "0x" arg)
  | .char 'T' => s.plain "string"
  | .char 'w' => refused (.char 'w') (value s arg)
  | letter => refused letter (s.plain arg)

/-- The state between the parts of a place. -/
structure Progress where
  /-- What is left of the pattern. -/
  rest : Text
  /-- The position of the next argument. -/
  next : Nat := 0
  /-- Whether arguments have been asked for by number. -/
  reordered : Bool := false
  /-- Whether the numbers in this place are in order. -/
  sound : Bool := true
  /-- Whether a number has just been read. -/
  numbered : Bool := false
  style : Style := {}
  /-- What this place has come to. -/
  out : Text := []
deriving DecidableEq, Repr

namespace Progress

def flagsFrom (s : Style) : Text → Style × Text
  | [] => (s, [])
  | b :: rest =>
    if b = '#' then flagsFrom { s with alternate := true } rest
    else if b = '0' then flagsFrom { s with zeros := true } rest
    else if b = '+' then flagsFrom { s with ascii := true } rest
    else if b = '-' then flagsFrom { s with left := true } rest
    else if b = ' ' then flagsFrom { s with spaced := true } rest
    else (s, b :: rest)

def takeFlags (p : Progress) : Progress :=
  let (style, rest) := flagsFrom p.style p.rest
  { p with style := style, rest := rest }

/-- The largest number that another digit may follow. -/
def numberLimit : Nat := 1000000

/-- Reads the digits of a number behind those that make up `n`. A number that is too large takes
the rest of the pattern with it. -/
def numberFrom (n : Option Nat) : Text → Option Nat × Text
  | [] => (n, [])
  | b :: rest =>
    if '0' ≤ b && b ≤ '9' then
      if numberLimit < n.getD 0 then (none, [])
      else numberFrom (some (n.getD 0 * 10 + (b.toNat - 48))) rest
    else (n, b :: rest)

/-- The number between brackets behind the opening one, if there is one, and what follows. -/
def numberInBrackets (t : Text) : Option Nat × Text :=
  match Text.splitAt? "]" t with
  | none => (none, t)
  | some (digits, rest) =>
    if digits.isEmpty && rest.isEmpty then (none, t)
    else
      match numberFrom none digits with
      | (some n, []) => (some n, rest)
      | _ => (none, rest)

/-- Reads the number of an argument. -/
def takeNumber (count : Nat) (p : Progress) : Progress :=
  match Text.dropStart? "[" p.rest with
  | none => { p with numbered := false }
  | some t =>
    let (n, rest) := numberInBrackets t
    let p := { p with rest := rest, reordered := true, numbered := n.isSome }
    match n with
    | some (n + 1) => if n < count then { p with next := n } else { p with sound := false }
    | _ => { p with sound := false }

/-- Passes over an argument that should have been a number. -/
def skip (count : Nat) (p : Progress) (report : Text) : Progress :=
  { p with next := if p.next < count then p.next + 1 else p.next
           out := p.out ++ report, numbered := false }

def takeWidth (count : Nat) (p : Progress) : Progress :=
  match Text.dropStart? "*" p.rest with
  | some rest => skip count { p with rest := rest } "%!(BADWIDTH)"
  | none =>
    let (n, rest) := numberFrom none p.rest
    { p with rest := rest, style := { p.style with width := n }
             sound := p.sound && !(p.numbered && n.isSome) }

/-- Reads a precision; a lone point stands for zero. -/
def takePrecision (count : Nat) (p : Progress) : Progress :=
  match Text.dropStart? "." p.rest with
  | none => p
  | some rest =>
    let p := takeNumber count { p with rest := rest, sound := p.sound && !p.numbered }
    match Text.dropStart? "*" p.rest with
    | some rest => skip count { p with rest := rest } "%!(BADPREC)"
    | none =>
      let (n, rest) := numberFrom none p.rest
      { p with rest := rest, style := { p.style with precision := some (n.getD 0) } }

/-- Reads the letter and fills the place. -/
def takeLetter (args : List Text) (p : Progress) : Progress :=
  match p.rest.symbols with
  | [] => { p with out := p.out ++ "%!(NOVERB)" }
  | letter :: rest =>
    let p := { p with rest := Text.ofSymbols rest }
    let report (t : Text) : Text := "%!" ++ letterText letter ++ "(" ++ t ++ ")"
    if letter = .char '%' then { p with out := p.out ++ "%" }
    else if !p.sound then { p with out := p.out ++ report "BADINDEX" }
    else
      match args[p.next]? with
      | none => { p with out := p.out ++ report "MISSING" }
      | some arg => { p with out := p.out ++ filled p.style arg letter, next := p.next + 1 }

/-- Reads what stands behind a percent sign and fills the place. -/
def takePlace (args : List Text) (p : Progress) : Progress :=
  let count := args.length
  let p := takePrecision count (takeWidth count (takeNumber count (takeFlags p)))
  takeLetter args (if p.numbered then p else takeNumber count p)

end Progress

/-- The arguments without a place, if places have taken them in order. -/
def extra (args : List Text) (p : Progress) : Text :=
  let left := args.drop p.next
  Text.when (!p.reordered && !left.isEmpty)
    ("%!(EXTRA " ++ Text.join ", " (left.map described) ++ ")")

/-- Fills the places of a pattern in at most `rounds` steps. -/
def fillFrom (args : List Text) : (rounds : Nat) → Progress → Text
  | 0, p => extra args p
  | rounds + 1, p =>
    match p.rest with
    | [] => extra args p
    | b :: rest =>
      if b = '%' then
        let p := Progress.takePlace args
          { p with rest := rest, sound := true, style := {}, out := [] }
        p.out ++ fillFrom args rounds p
      else b :: fillFrom args rounds { p with rest := rest }

/-- The message of a pattern and its arguments. -/
def fill (pattern : Text) (args : List Text) : Text :=
  fillFrom args (pattern.length + 1) { rest := pattern }

end SheetFormula.Message
