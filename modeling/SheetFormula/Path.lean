import SheetFormula.Text

/-!
# Paths

Paths as texts: components between slashes. These functions look at the text only, never at files.
-/

namespace SheetFormula.Path

/-- The byte between components. -/
def slash : UInt8 := '/'

def isAbsolute (p : Text) : Bool := p.head? == some slash

/-- Puts a component on a stack of components: a step up takes the last one away, if it can. -/
def push (absolute : Bool) (stack : List Text) (c : Text) : List Text :=
  if c = "" || c = "." then stack
  else if c = ".." then
    match stack with
    | [] => if absolute then [] else [c]
    | top :: rest => if top = ".." then c :: stack else rest
  else c :: stack

/-- The components that are left when all steps up are taken as far as possible. -/
def components (p : Text) : List Text :=
  ((Text.splitOn slash p).foldl (push (isAbsolute p)) []).reverse

/-- The shortest text for a path. -/
def clean (p : Text) : Text :=
  if isAbsolute p then slash :: Text.join [slash] (components p)
  else if (components p).isEmpty then "."
  else Text.join [slash] (components p)

/-- Two paths one behind the other; an empty one does not count. -/
def join (a b : Text) : Text :=
  if a.isEmpty then (if b.isEmpty then [] else clean b) else clean (a ++ slash :: b)

/-- The components of a directory and of what is in it, as an absolute path. -/
def absolute (components : List Text) : Text := slash :: Text.join [slash] components

/-- A path as seen from a directory. -/
def within (dir p : Text) : Text := if isAbsolute p then clean p else join dir p

/-- The part of a path behind its last slash. -/
def lastPart (p : Text) : Text := (p.reverse.takeWhile (· != slash)).reverse

def dir (p : Text) : Text := clean (p.take (p.length - (lastPart p).length))

/-- The last component of a path. -/
def base (p : Text) : Text :=
  if p.isEmpty then "."
  else
    let trimmed := (p.reverse.dropWhile (· == slash)).reverse
    if trimmed.isEmpty then [slash] else lastPart trimmed

/-- The extension of a path, from the last point of its last part on. -/
def extension (p : Text) : Text :=
  let part := lastPart p
  let tail := (part.reverse.takeWhile fun b : UInt8 => b != '.').reverse
  if tail.length = part.length then [] else '.' :: tail

def stem (p : Text) : Text := p.take (p.length - (extension p).length)

end SheetFormula.Path
