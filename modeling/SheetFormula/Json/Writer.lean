import SheetFormula.Text.Symbol

/-!
# Writing JSON strings

There are two styles. The plain one escapes only what JSON demands and keeps every other byte. The
one for reports also escapes what would be unsafe inside a web page or a script, and replaces
stray bytes, so that a report is a single line of UTF-8.
-/

namespace SheetFormula.Json

/-- The escape of an ASCII byte that may not stand in a JSON string. -/
def escapeByte (b : UInt8) : Text :=
  if b = '"' || b = '\\' then ['\\', b]
  else if b = '\n' then "\\n"
  else if b = '\r' then "\\r"
  else if b = '\t' then "\\t"
  else "\\u00" ++ Text.hex 2 b.toNat

/-- Bytes that JSON wants escaped. -/
def needsEscape (b : UInt8) : Bool := b < 0x20 || b == '"' || b == '\\'

/-- The inside of a string in the plain style. -/
def plainBody (t : Text) : Text :=
  t.flatMap fun b => if needsEscape b then escapeByte b else [b]

/-- A string in the plain style. -/
def plain (t : Text) : Text := "\"" ++ plainBody t ++ "\""

/-- A symbol in the style for reports. -/
def safeSymbol : Symbol → Text
  | .stray _ => "\\ufffd"
  | .char c =>
    if c.toNat < 0x80 then
      let b := c.toUInt8
      if needsEscape b || b == '<' || b == '>' || b == '&' then escapeByte b else [b]
    else if c.toNat = 0x2028 then "\\u2028"
    else if c.toNat = 0x2029 then "\\u2029"
    else String.utf8EncodeChar c

/-- A string in the style for reports. -/
def safe (t : Text) : Text := "\"" ++ t.symbols.flatMap safeSymbol ++ "\""

end SheetFormula.Json
