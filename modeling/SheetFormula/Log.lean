import SheetFormula.Text.Blank
import SheetFormula.Text.Quoted

/-!
# Log lines

A message has a severity. A console shows the messages that reach its threshold, the grave ones
apart from the rest; a log keeps all of them.
-/

namespace SheetFormula

/-- How grave a message is. -/
inductive Severity where
  | debug
  | info
  | warn
  | error
deriving DecidableEq, Repr

namespace Severity

/-- The place of a severity in ascending order. -/
def rank : Severity → Nat
  | debug => 0
  | info => 1
  | warn => 2
  | error => 3

/-- The mark at the start of a line. -/
def tag : Severity → Text
  | debug => "[DEBUG]"
  | info => "[INFO]"
  | warn => "[WARN]"
  | error => "[ERROR]"

/-- Whether messages are shown apart from ordinary output. -/
def isGrave (s : Severity) : Bool := warn.rank ≤ s.rank

end Severity

/-- Which messages are shown. -/
inductive Threshold where
  | atLeast (s : Severity)
  /-- None at all. -/
  | quiet
deriving DecidableEq, Repr

namespace Threshold

def rank : Threshold → Nat
  | atLeast s => s.rank
  | quiet => 4

/-- Whether messages of a severity are shown. -/
def admits (t : Threshold) (s : Severity) : Bool := t.rank ≤ s.rank

def words : List (Text × Threshold) :=
  [("debug", atLeast .debug), ("", atLeast .info), ("info", atLeast .info),
   ("warn", atLeast .warn), ("warning", atLeast .warn), ("error", atLeast .error),
   ("quiet", quiet), ("off", quiet)]

/-- The threshold of a word; an unknown word gives a message. -/
def parse (t : Text) : Except Text Threshold :=
  match words.lookup t.word with
  | some threshold => .ok threshold
  | none => .error ("unknown log level " ++ t.quoted)

end Threshold

structure LogLine where
  severity : Severity
  message : Text
deriving DecidableEq, Repr

/-- A line as it is shown, without the line feed. -/
def LogLine.text (l : LogLine) : Text := l.severity.tag ++ " " ++ l.message

/-- The lines that were logged, in order. -/
abbrev Log := List LogLine

/-- The lines of a log, each closed by a line feed. -/
def Log.text (log : Log) : Text := Text.eachBefore "\n" (log.map LogLine.text)

/-- What a program has written to its two channels. -/
structure Console where
  out : Text := []
  err : Text := []
deriving DecidableEq, Repr

namespace Console

def print (c : Console) (t : Text) : Console := { c with out := c.out ++ t }

/-- Writes to the channel for errors. -/
def warn (c : Console) (t : Text) : Console := { c with err := c.err ++ t }

/-- Shows a line if it reaches the threshold. -/
def log (c : Console) (threshold : Threshold) (l : LogLine) : Console :=
  if !threshold.admits l.severity then c
  else if l.severity.isGrave then c.warn (l.text ++ "\n")
  else c.print (l.text ++ "\n")

end Console

end SheetFormula
