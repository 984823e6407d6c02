import SheetFormula.Yaml.Stream

/-!
# Scalars in a YAML stream

Plain, quoted and block scalars, from their first character to the place behind them. Every loop
takes at least one character per round, so the rest of the stream bounds its rounds.
-/

namespace SheetFormula.Yaml

/-- The blanks between two words of a scalar. Once a line has ended only its breaks count. -/
structure Gap where
  lineEnded : Bool := false
  spaces : List Char := []
  firstBreak : List Char := []
  moreBreaks : List Char := []
deriving DecidableEq, Repr

namespace Gap

/-- What a gap contributes to a scalar: a single line feed folds to a space. -/
def text (g : Gap) : List Char :=
  if g.lineEnded then
    if g.firstBreak.head? == some '\n' then
      if g.moreBreaks.isEmpty then [' '] else g.moreBreaks
    else g.firstBreak ++ g.moreBreaks
  else g.spaces

def blank (g : Gap) (ch : Char) : Gap :=
  if g.lineEnded then g else { g with spaces := g.spaces ++ [ch] }

def lineBreak (g : Gap) (br : List Char) : Gap :=
  if g.lineEnded then { g with moreBreaks := g.moreBreaks ++ br }
  else { g with lineEnded := true, spaces := [], firstBreak := br }

end Gap

/-- Reads a gap. A tab below the indentation `indent` of a new line is refused. -/
def gapFrom (indent : Nat) : (rounds : Nat) → Gap → Cursor → Option (Gap × Cursor)
  | 0, g, c => some (g, c)
  | rounds + 1, g, c =>
    match c.peek? with
    | none => some (g, c)
    | some ch =>
      if isBlank ch then
        if g.lineEnded && c.column < indent && ch == '\t' then none
        else gapFrom indent rounds (g.blank ch) c.skip
      else if isBreak ch then
        let (br, next) := c.readBreak
        gapFrom indent rounds (g.lineBreak br) next
      else some (g, c)

def gap? (indent : Nat) (g : Gap) (c : Cursor) : Option (Gap × Cursor) :=
  gapFrom indent c.rest.length g c

/-! ### Quoted scalars -/

/-- The character of a one-letter escape. -/
def escapeChar? : Char → Option Char
  | '0' => some (Char.ofNat 0)
  | 'a' => some (Char.ofNat 7)
  | 'b' => some (Char.ofNat 8)
  | 't' | '\t' => some '\t'
  | 'n' => some '\n'
  | 'v' => some (Char.ofNat 11)
  | 'f' => some (Char.ofNat 12)
  | 'r' => some '\r'
  | 'e' => some (Char.ofNat 27)
  | ' ' => some ' '
  | '"' => some '"'
  | '\'' => some '\''
  | '\\' => some '\\'
  | 'N' => some (Char.ofNat 0x85)
  | '_' => some (Char.ofNat 0xA0)
  | 'L' => some (Char.ofNat 0x2028)
  | 'P' => some (Char.ofNat 0x2029)
  | _ => none

/-- The number of digits of an escape by code point. -/
def escapeWidth? : Char → Option Nat
  | 'x' => some 2
  | 'u' => some 4
  | 'U' => some 8
  | _ => none

def hexValue? (cs : List Char) : Option Nat :=
  cs.foldlM (fun n c =>
    if c.toNat < 128 then (Text.hexValue? c.toUInt8).map (n * 16 + ·) else none) 0

/-- The character of an escape after its backslash, and the number of characters it takes. -/
def escapeAt? : List Char → Option (Char × Nat)
  | [] => none
  | ch :: rest =>
    match escapeChar? ch with
    | some c => some (c, 1)
    | none => do
      let width ← escapeWidth? ch
      if rest.length < width then none
      else
        let n ← hexValue? (rest.take width)
        if (0xD800 ≤ n && n ≤ 0xDFFF) || 0x10FFFF < n then none
        else some (Char.ofNat n, width + 1)

/-- Reads a quoted scalar up to a gap, its closing quote or the end; `done` is in reverse. The flag
tells of an escaped line break at the end. -/
def quotedWord (single : Bool) :
    (rounds : Nat) → (done : List Char) → Cursor → Option (List Char × Bool × Cursor)
  | 0, done, c => some (done.reverse, false, c)
  | rounds + 1, done, c =>
    match c.rest with
    | [] => some (done.reverse, false, c)
    | ch :: rest =>
      if isBlankOrBreak ch then some (done.reverse, false, c)
      else if single && ch == '\'' then
        if rest.head? == some '\'' then quotedWord single rounds ('\'' :: done) (c.skipN 2)
        else some (done.reverse, false, c)
      else if !single && ch == '"' then some (done.reverse, false, c)
      else if !single && ch == '\\' then
        if rest.head?.any isBreak then some (done.reverse, true, c.skip.skipBreak)
        else
          match escapeAt? rest with
          | some (e, n) => quotedWord single rounds (e :: done) (c.skipN (n + 1))
          | none => none
      else quotedWord single rounds (ch :: done) c.skip

/-- Reads a quoted scalar after its opening quote. -/
def quotedFrom (single : Bool) :
    (rounds : Nat) → (done : List Char) → Cursor → Option (List Char × Cursor)
  | 0, _, _ => none
  | rounds + 1, done, c =>
    if c.documentIndicator || c.rest.isEmpty then none
    else
      match quotedWord single c.rest.length [] c with
      | none => none
      | some (word, escaped, c) =>
        if c.atChar (if single then '\'' else '"') then some (done ++ word, c.skip)
        else
          match gap? 0 { lineEnded := escaped } c with
          | none => none
          | some (g, c) => quotedFrom single rounds (done ++ word ++ g.text) c

/-- Reads a quoted scalar at its opening quote. -/
def quoted? (single : Bool) (c : Cursor) : Option (List Char × Cursor) :=
  quotedFrom single c.rest.length [] c.skip

/-! ### Plain scalars -/

/-- The number of characters up to a blank, or to an indicator that ends a plain scalar. -/
def plainLength (flow : Bool) : List Char → Nat
  | [] => 0
  | ch :: rest =>
    if isBlankOrBreak ch then 0
    else if ch == ':' && rest.head?.all isBlankOrBreak then 0
    else if flow && [',', '?', '[', ']', '\x7b', '\x7d'].contains ch then 0
    else plainLength flow rest + 1

/-- Reads a plain scalar whose continuation lines are indented by `indent`. The flag tells whether
a line break was passed after the last word. -/
def plainFrom (flow : Bool) (indent : Nat) :
    (rounds : Nat) → (done : List Char) → Gap → Cursor → Option (List Char × Bool × Cursor)
  | 0, done, g, c => some (done, g.lineEnded, c)
  | rounds + 1, done, g, c =>
    if c.documentIndicator || c.atChar '#' then some (done, g.lineEnded, c)
    else
      let n := plainLength flow c.rest
      if n = 0 then some (done, g.lineEnded, c)
      else
        let done := done ++ g.text ++ c.rest.take n
        let c := c.skipN n
        if c.sees 0 isBlankOrBreak then
          match gap? indent {} c with
          | none => none
          | some (g, c) =>
            if !flow && c.column < indent then some (done, g.lineEnded, c)
            else plainFrom flow indent rounds done g c
        else some (done, false, c)

def plain? (flow : Bool) (indent : Nat) (c : Cursor) : Option (List Char × Bool × Cursor) :=
  plainFrom flow indent c.rest.length [] {} c

/-! ### Block scalars -/

/-- What happens to the line breaks at the end of a block scalar. -/
inductive Chomping where
  | strip
  | clip
  | keep
deriving DecidableEq, Repr

/-- Chomping and explicit indentation of a block scalar, from the characters after its indicator. -/
def blockHeader? (c : Cursor) : Option (Chomping × Option Nat × Cursor) :=
  let chomping? (c : Cursor) : Option Chomping :=
    if c.atChar '+' then some .keep else if c.atChar '-' then some .strip else none
  let digit? (c : Cursor) : Option Nat :=
    c.peek?.bind fun ch => if ch.isDigit then some (ch.toNat - 48) else none
  match chomping? c with
  | some chomping =>
    match digit? c.skip with
    | some 0 => none
    | some n => some (chomping, some n, c.skipN 2)
    | none => some (chomping, none, c.skip)
  | none =>
    match digit? c with
    | some 0 => none
    | some n =>
      match chomping? c.skip with
      | some chomping => some (chomping, some n, c.skipN 2)
      | none => some (.clip, some n, c.skip)
    | none => some (.clip, none, c)

/-- Reads the indentation and the empty lines before a line of a block scalar. Without a known
indentation the deepest column seen counts. -/
def blockBreaksFrom (indent : Option Nat) :
    (rounds : Nat) → (deepest : Nat) → (breaks : List Char) → Cursor →
    Option (List Char × Nat × Cursor)
  | 0, deepest, breaks, c => some (breaks, deepest, c)
  | rounds + 1, deepest, breaks, c =>
    let spaces := (c.rest.takeWhile (· == ' ')).length
    let c := c.skipN (match indent with
      | some n => min spaces (n - c.column)
      | none => spaces)
    let deepest := max deepest c.column
    let below := match indent with
      | some n => c.column < n
      | none => true
    if below && c.atChar '\t' then none
    else if c.sees 0 isBreak then
      let (br, next) := c.readBreak
      blockBreaksFrom indent rounds deepest (breaks ++ br) next
    else some (breaks, deepest, c)

/-- Reads the indentation and the empty lines before a line of a block scalar. -/
def blockBreaks? (indent : Option Nat) (c : Cursor) : Option (List Char × Nat × Cursor) :=
  blockBreaksFrom indent (c.rest.length + 1) 0 [] c

/-- A block scalar up to some line: its text, the break after its last line, the empty lines after
that, and whether the last line started with a blank. -/
structure BlockText where
  text : List Char := []
  lastBreak : List Char := []
  moreBreaks : List Char := []
  blankLine : Bool := false
deriving DecidableEq, Repr

/-- A block scalar with one more line. Between two lines that start with no blank a folded scalar
has a space instead of a single line feed. -/
def BlockText.push (literal : Bool) (b : BlockText) (line br : List Char) : BlockText :=
  let blank := line.head?.any isBlank
  let joint :=
    if !literal && !b.blankLine && !blank && b.lastBreak.head? == some '\n' then
      if b.moreBreaks.isEmpty then [' '] else []
    else b.lastBreak
  { text := b.text ++ joint ++ b.moreBreaks ++ line, lastBreak := br, blankLine := blank }

/-- Reads the lines of a block scalar that are indented by `indent`. -/
def blockLines (literal : Bool) (indent : Nat) :
    (rounds : Nat) → BlockText → Cursor → Option (BlockText × Cursor)
  | 0, b, c => some (b, c)
  | rounds + 1, b, c =>
    if c.column == indent && !c.rest.isEmpty then
      let (line, c) := c.readWhile fun ch => !isBreak ch
      let (br, c) := c.readBreak
      match blockBreaks? (some indent) c with
      | none => none
      | some (breaks, _, c) =>
        blockLines literal indent rounds { b.push literal line br with moreBreaks := breaks } c
    else some (b, c)

/-- Reads a block scalar at its indicator, in a block that is indented by `parent`. -/
def block? (literal : Bool) (parent : Int) (c : Cursor) : Option (List Char × Cursor) := do
  let (chomping, increment, c) ← blockHeader? c.skip
  let c := c.skipWhile isBlank
  let c := if c.atChar '#' then c.skipWhile (fun ch => !isBreak ch) else c
  if !c.lineEnds then none
  else
    let known := increment.map fun n => if 0 ≤ parent then parent.toNat + n else n
    let (breaks, deepest, c) ← blockBreaks? known c.skipBreak
    let indent := known.getD (max deepest (max (parent + 1).toNat 1))
    let (b, c) ← blockLines literal indent (c.rest.length + 1) { moreBreaks := breaks } c
    let tail := match chomping with
      | .strip => []
      | .clip => b.lastBreak
      | .keep => b.lastBreak ++ b.moreBreaks
    return (b.text ++ tail, c)

end SheetFormula.Yaml
