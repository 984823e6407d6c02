import SheetFormula.Yaml.Stream
import SheetFormula.Yaml.Tag

/-!
# Writing YAML mappings of strings

A mapping is written as a block, one pair after the other. Every scalar is a string: it is quoted
where it would otherwise be read as something else, and a literal block where it has several
lines.
-/

namespace SheetFormula.Yaml

inductive Style where
  | plain
  | singleQuoted
  | doubleQuoted
  | literal
deriving DecidableEq, Repr

/-- Characters that may be written as themselves. Those beyond the basic plane are not. -/
def isPrintable (c : Char) : Bool :=
  let n := c.toNat
  n == 0x0A || (0x20 ≤ n && n ≤ 0x7E) || (0xA0 ≤ n && n ≤ 0xFFFD && n != 0xFEFF)

/-- Whether the character after some characters is a blank or not there. -/
def blankNext (cs : List Char) : Bool := cs.head?.all isBlank

/-- Characters that start something other than a plain scalar. -/
def startsOther (c : Char) : Bool :=
  ['#', ',', '[', ']', '\x7b', '\x7d', '&', '*', '!', '|', '>', '\'', '"', '%', '@',
    '\x60'].contains c

/-- Whether characters after the first hold an indicator: a colon before a blank or a number sign
after one. -/
def hasIndicator : (before : Char) → List Char → Bool
  | _, [] => false
  | before, c :: rest =>
    (c == ':' && blankNext rest) || (c == '#' && isBlankOrBreak before) || hasIndicator c rest

/-- Whether a scalar holds what would not be part of it if it were plain. -/
def indicates : List Char → Bool
  | [] => false
  | c :: rest =>
    (c :: rest).take 3 == ['-', '-', '-'] || (c :: rest).take 3 == ['.', '.', '.']
      || startsOther c || ((c == '?' || c == ':' || c == '-') && blankNext rest)
      || hasIndicator c rest

/-- Whether a character of one class is directly before one of another class. -/
def hasPair (p q : Char → Bool) : List Char → Bool
  | a :: b :: rest => (p a && q b) || hasPair p q (b :: rest)
  | _ => false

def isSpace (c : Char) : Bool := c == ' '

/-- Whether a scalar holds characters that only escapes can write, a tab apart. -/
def isSpecial (cs : List Char) : Bool := cs.any fun c => c != '\t' && !isPrintable c

/-- Whether a scalar keeps its text between single quotes. -/
def singleAllowed (cs : List Char) : Bool :=
  !(hasPair isBreak isSpace cs || hasPair isSpace isBreak cs || cs.contains '\t' || isSpecial cs)

/-- Whether a scalar keeps its text without quotes. -/
def plainAllowed (cs : List Char) : Bool :=
  singleAllowed cs && !cs.any isBreak && !cs.head?.any isSpace && !cs.getLast?.any isSpace
    && !indicates cs

/-- Whether a scalar keeps its text as a literal block. -/
def literalAllowed (cs : List Char) : Bool :=
  !cs.getLast?.any isSpace && !hasPair isSpace isBreak cs && !isSpecial cs

def style (cs : List Char) : Style :=
  if cs.contains '\n' then
    if literalAllowed cs then .literal else .doubleQuoted
  else if implicitTag (ofChars cs) ≠ "!!str" then .doubleQuoted
  else if plainAllowed cs then .plain
  else if singleAllowed cs then .singleQuoted
  else .doubleQuoted

/-- Upper-case hexadecimal digits. -/
def upperHex (width n : Nat) : Text :=
  (Text.hex width n).map fun b : UInt8 => if 'a' ≤ b && b ≤ 'f' then b - 32 else b

/-- A character between double quotes. -/
def escaped (c : Char) : Text :=
  match c.toNat with
  | 0x00 => "\\0"
  | 0x07 => "\\a"
  | 0x08 => "\\b"
  | 0x09 => "\\t"
  | 0x0A => "\\n"
  | 0x0B => "\\v"
  | 0x0C => "\\f"
  | 0x0D => "\\r"
  | 0x1B => "\\e"
  | 0x22 => "\\\""
  | 0x5C => "\\\\"
  | 0x85 => "\\N"
  | 0x2028 => "\\L"
  | 0x2029 => "\\P"
  | n =>
    if isPrintable c then String.utf8EncodeChar c
    else if n ≤ 0xFF then "\\x" ++ upperHex 2 n
    else if n ≤ 0xFFFF then "\\u" ++ upperHex 4 n
    else "\\U" ++ upperHex 8 n

def doubleQuoted (cs : List Char) : Text := "\"" ++ cs.flatMap escaped ++ "\""

/-- The indentation of lines inside a scalar. -/
def indentation : Text := "    "

/-- Characters between single quotes; a line after a line break is indented. -/
def singleBody : (lineStart : Bool) → List Char → Text
  | _, [] => []
  | lineStart, c :: rest =>
    if isBreak c then String.utf8EncodeChar c ++ singleBody true rest
    else
      Text.when lineStart indentation ++ Text.when (c == '\'') "'" ++ String.utf8EncodeChar c
        ++ singleBody false rest

def singleQuoted (cs : List Char) : Text := "'" ++ singleBody false cs ++ "'"

/-- The lines of a literal block, each indented unless it is empty. -/
def literalBody : (lineStart : Bool) → List Char → Text
  | _, [] => []
  | lineStart, c :: rest =>
    if isBreak c then String.utf8EncodeChar c ++ literalBody true rest
    else
      Text.when lineStart indentation ++ String.utf8EncodeChar c ++ literalBody false rest

/-- What stands after the indicator of a literal block: its indentation, if the text itself starts
with a space or a break, and what happens to the breaks at its end. -/
def literalHeader (cs : List Char) : Text :=
  let hint := Text.when (cs.head?.any fun c => isSpace c || isBreak c) "4"
  let tail := cs.reverse.takeWhile isBreak
  let chomping : Text :=
    if tail.isEmpty then "-" else if tail.length = cs.length || 2 ≤ tail.length then "+" else ""
  hint ++ chomping

/-- A literal block. A line break that the text starts with ends the line of the header. -/
def literal (cs : List Char) : Text :=
  "|" ++ literalHeader cs ++ Text.when (!cs.head?.any isBreak) "\n" ++ literalBody true cs

def scalar (cs : List Char) : Text :=
  match style cs with
  | .plain => ofChars cs
  | .singleQuoted => singleQuoted cs
  | .doubleQuoted => doubleQuoted cs
  | .literal => literal cs

/-- Whether what follows a scalar is already on a line of its own. -/
def endsLine (cs : List Char) : Bool := style cs == .literal && cs.getLast?.any isBreak

def scalarLine (cs : List Char) : Text := scalar cs ++ Text.when (!endsLine cs) "\n"

/-- Whether a key can stand before its colon on one line. -/
def isShortKey (cs : List Char) : Bool := !cs.any isBreak && (ofChars cs).length ≤ 128

def pair (key value : List Char) : Text :=
  if isShortKey key then scalar key ++ ": " ++ scalarLine value
  else "? " ++ scalarLine key ++ ": " ++ scalarLine value

/-- A mapping of strings to strings; none if a text is not UTF-8. -/
def mapping? (pairs : List (Text × Text)) : Option Text :=
  if pairs.isEmpty then some "\x7b\x7d\n"
  else do
    let parts ← pairs.mapM fun (key, value) => do
      let k ← ofUtf8? key
      let v ← ofUtf8? value
      return pair k v
    return parts.flatten

end SheetFormula.Yaml
