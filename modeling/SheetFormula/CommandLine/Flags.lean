import SheetFormula.Text.Quoted

/-!
# Flags

Flags come before the inputs. A flag starts with one or two hyphens; a switch may be given a truth
value behind an equals sign, and any other flag takes its value from there or from the next
argument. A lone hyphen is an input, and two hyphens end the flags.
-/

namespace SheetFormula

/-- What the flags of a command say. -/
structure Flags where
  config : Text := []
  mode : Text := []
  members : Text := []
  outDir : Text := []
  manifest : Text := []
  print : Bool := false
  json : Bool := false
  quiet : Bool := false
  version : Bool := false
  help : Bool := false
deriving DecidableEq, Repr

namespace Flags

inductive Flag where
  | value (set : Text → Flags → Flags)
  | switch (set : Bool → Flags → Flags)

def table : List (Text × Flag) :=
  [("config", .value fun t f => { f with config := t }),
   ("mode", .value fun t f => { f with mode := t }),
   ("members", .value fun t f => { f with members := t }),
   ("out", .value fun t f => { f with outDir := t }),
   ("manifest", .value fun t f => { f with manifest := t }),
   ("print", .switch fun b f => { f with print := b }),
   ("json", .switch fun b f => { f with json := b }),
   ("quiet", .switch fun b f => { f with quiet := b }),
   ("version", .switch fun b f => { f with version := b }),
   ("help", .switch fun b f => { f with help := b })]

inductive ArgumentError where
  | malformed (argument : Text)
  | unknown (name : Text)
  | noTruthValue (value name : Text)
  | noValue (name : Text)
deriving DecidableEq, Repr

def ArgumentError.message : ArgumentError → Text
  | malformed argument => "bad flag syntax: " ++ argument
  | unknown name => "flag provided but not defined: -" ++ name
  | noTruthValue value name =>
    "invalid boolean value " ++ value.quoted ++ " for -" ++ name ++ ": parse error"
  | noValue name => "flag needs an argument: -" ++ name

def truthValues : List (Text × Bool) :=
  [("1", true), ("t", true), ("T", true), ("TRUE", true), ("true", true), ("True", true),
   ("0", false), ("f", false), ("F", false), ("FALSE", false), ("false", false), ("False", false)]

/-- What arguments amount to. -/
inductive Parsed where
  | flags (f : Flags) (inputs : List Text)
  /-- The short form of asking for help. -/
  | help
  | wrong (e : ArgumentError)
deriving DecidableEq, Repr

inductive Shape where
  | input
  | terminator
  | malformed
  | flag (name : Text) (value : Option Text)
deriving DecidableEq, Repr

/-- A flag without its hyphens: its name, and its value behind the first equals sign. -/
def flagShape (body : Text) : Shape :=
  match body with
  | [] => .malformed
  | a :: rest =>
    if a = '-' || a = '=' then .malformed
    else
      match Text.splitAt? "=" rest with
      | some (name, value) => .flag (a :: name) (some value)
      | none => .flag body none

def shape (argument : Text) : Shape :=
  match argument with
  | a :: b :: rest =>
    if a ≠ '-' then .input
    else if b ≠ '-' then flagShape (b :: rest)
    else if rest.isEmpty then .terminator
    else flagShape rest
  | _ => .input

/-- Reads flags from the start of the arguments. -/
def parseInto : Flags → (arguments : List Text) → Parsed
  | f, [] => .flags f []
  | f, argument :: rest =>
    match shape argument with
    | .input => .flags f (argument :: rest)
    | .terminator => .flags f rest
    | .malformed => .wrong (.malformed argument)
    | .flag name value =>
      match table.lookup name, value with
      | none, _ => if name = "h" then .help else .wrong (.unknown name)
      | some (.switch set), none => parseInto (set true f) rest
      | some (.switch set), some value =>
        match truthValues.lookup value with
        | some b => parseInto (set b f) rest
        | none => .wrong (.noTruthValue value name)
      | some (.value set), some value => parseInto (set value f) rest
      | some (.value set), none =>
        match rest with
        | value :: rest => parseInto (set value f) rest
        | [] => .wrong (.noValue name)

def parse (arguments : List Text) : Parsed := parseInto {} arguments

end Flags

end SheetFormula
