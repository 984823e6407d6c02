import SheetFormula.Settings
import SheetFormula.Text.Base64
import SheetFormula.Text.Quoted
import SheetFormula.Yaml.Node

/-!
# Settings files

A settings file is a YAML mapping. Each known key sets one setting or leads to a group of settings,
unknown keys are ignored, and null leaves a setting as it was. All values of a wrong type are
reported together.
-/

namespace SheetFormula.Settings

/-- What a key sets. -/
inductive Slot where
  | text (set : Text → Settings → Settings)
  | count (set : Int64 → Settings → Settings)
  | flag (set : Bool → Settings → Settings)
  | span (set : Duration → Settings → Settings)
  | group (typeName : Text) (slots : List (Text × Slot))

/-- The type of a slot's values, as messages name it. -/
def Slot.typeName : Slot → Text
  | text _ => "string"
  | count _ => "int"
  | flag _ => "bool"
  | span _ => "time.Duration"
  | group typeName _ => typeName

/-- The keys of the settings for manifests. -/
def manifestSlots : List (Text × Slot) :=
  [("enabled", .flag fun b s => { s with manifest := { s.manifest with enabled := b } }),
   ("format", .text fun t s => { s with manifest := { s.manifest with format := t } }),
   ("store", .text fun t s => { s with manifest := { s.manifest with store := t } }),
   ("sqlite", .text fun t s => { s with manifest := { s.manifest with database := t } })]

/-- The keys of a settings file. -/
def slots : List (Text × Slot) :=
  [("mode", .text fun t s => { s with mode := t }),
   ("members", .text fun t s => { s with members := t }),
   ("out_dir", .text fun t s => { s with outDir := t }),
   ("workers", .count fun n s => { s with workers := n }),
   ("manifest", .group "config.ManifestConfig" manifestSlots),
   ("watch", .group "config.WatchConfig" [("debounce", .span fun d s => { s with debounce := d })]),
   ("logging", .group "config.LoggingConfig"
     [("level", .text fun t s => { s with level := t }),
      ("quiet", .flag fun b s => { s with quiet := b })])]

/-- What is wrong with a part of a settings file. -/
inductive Problem where
  /-- A value that does not have the type of its key. -/
  | mismatch (line : Nat) (tag value typeName : Text)
  | repeatedKey (line : Nat) (key : Text) (firstLine : Nat)
  /-- Two different spellings of one key. -/
  | repeatedField (line : Nat) (key typeName : Text)
deriving DecidableEq, Repr

namespace Problem

/-- A value in a message: only the start of a long one. -/
def excerpt (value : Text) : Text :=
  if 10 < value.length then value.take 7 ++ "..." else value

def message : Problem → Text
  | mismatch line tag value typeName =>
    "line " ++ Text.ofNat line ++ ": cannot unmarshal " ++ tag
      ++ (if tag = "!!seq" || tag = "!!map" then value else " \x60" ++ excerpt value ++ "\x60")
      ++ " into " ++ typeName
  | repeatedKey line key firstLine =>
    "line " ++ Text.ofNat line ++ ": mapping key " ++ key.quoted ++ " already defined at line "
      ++ Text.ofNat firstLine
  | repeatedField line key typeName =>
    "line " ++ Text.ofNat line ++ ": field " ++ key ++ " already set in type " ++ typeName

end Problem

inductive DecodeError where
  | malformed
  | problems (ps : List Problem)
deriving DecidableEq, Repr

def DecodeError.message : DecodeError → Text
  | malformed => "yaml: <syntax>"
  | problems ps => "yaml: unmarshal errors:" ++ Text.eachAfter "\n  " (ps.map Problem.message)

/-- The tags that say what the text of a scalar stands for. -/
def plainTags : List Text := ["!!bool", "!!int", "!!float", "!!null", "!!timestamp"]

/-- What a scalar stands for, and its text. A text that does not fit its tag stands for nothing. -/
def meaning? (tag value : Text) : Option (Yaml.Resolved × Text) :=
  if tag = "!!binary" then (Base64.decode? value).map (.string, ·)
  else if plainTags.contains tag then
    let r := Yaml.resolve (tag == "!!timestamp") value
    if r.tag = tag then some (r, value)
    else
      match r with
      | .int n =>
        if tag = "!!float" && n < Nat.pow 2 63 then
          some (.float (.finite (n < 0) ⟨n.natAbs, 0⟩), value)
        else none
      | _ => none
  else some (.string, value)

/-- The words for truth values that are not truth values by themselves. -/
def flagWords : List (Text × Bool) :=
  [("y", true), ("Y", true), ("yes", true), ("Yes", true), ("YES", true), ("on", true),
   ("On", true), ("ON", true), ("n", false), ("N", false), ("no", false), ("No", false),
   ("NO", false), ("off", false), ("Off", false), ("OFF", false)]

/-- The whole part of a number in double precision, in 64 bits. A number that is too low, or that
is the first one too high, becomes the lowest integer. -/
def wholePart? : Yaml.FloatSpelling → Option Int64
  | .nan | .infinite false => none
  | .infinite true => some Int64.minValue
  | .finite negative d =>
    let n := d.doubleFloor
    if negative then some (if n ≤ Nat.pow 2 63 then Int64.ofInt (-n) else Int64.minValue)
    else if n ≤ Nat.pow 2 63 then some (Int64.ofNat n)
    else none

/-- What a scalar does to the settings, if its type is right. -/
def Slot.set? (slot : Slot) (meaning : Yaml.Resolved) (t : Text) : Option (Settings → Settings) :=
  match slot, meaning with
  | text set, _ => some (set t)
  | count set, .int n => if n < Nat.pow 2 63 then some (set (Int64.ofInt n)) else none
  | count set, .float f => (wholePart? f).map set
  | flag set, .bool b => some (set b)
  | flag set, .string => (flagWords.lookup t).map set
  | span set, .string => (Duration.parse? t).map set
  | _, _ => none

/-- Settings so far, with the problems found. -/
structure Reading where
  settings : Settings := {}
  problems : List Problem := []

def Reading.report (r : Reading) (ps : List Problem) : Reading :=
  { r with problems := r.problems ++ ps }

/-- Whether two keys are spelled alike. -/
def alike (a b : Yaml.Node) : Bool := a.kindNumber == b.kindNumber && a.value == b.value

/-- The keys that repeat an earlier one. -/
def repeats : List (Yaml.Node × Yaml.Node) → List Problem
  | [] => []
  | (k, _) :: rest =>
    ((rest.filter fun p => alike k p.1).map fun p => .repeatedKey p.1.line p.1.value k.line)
      ++ repeats rest

/-- The problems of a collection that stands where a single value is wanted. -/
def misplaced (typeName : Text) : Yaml.Node → List Problem
  | .sequence line tag _ => [.mismatch line tag [] typeName]
  | .mapping line tag pairs =>
    match repeats pairs with
    | [] => [.mismatch line tag [] typeName]
    | ps => ps
  | _ => []

/-- The node that an alias stands for. -/
def followed (d : Yaml.Document) : Yaml.Node → Yaml.Node
  | .aliasOf line column name target =>
    (d.anchored.lookup target).getD (.aliasOf line column name target)
  | n => n

/-- Sets a single setting. -/
def Reading.single (r : Reading) (slot : Slot) : Yaml.Node → Option Reading
  | .scalar line tag value =>
    (meaning? tag value).map fun (meaning, t) =>
      if meaning = .null then r
      else
        match slot.set? meaning t with
        | some f => { r with settings := f r.settings }
        | none => r.report [.mismatch line tag value slot.typeName]
  | n => some (r.report (misplaced slot.typeName n))

/-- The text of a key; null and collections have none. -/
def Reading.key (r : Reading) : Yaml.Node → Option (Option Text × Reading)
  | .scalar _ tag value =>
    (meaning? tag value).map fun (meaning, t) => (if meaning = .null then none else some t, r)
  | n => some (none, r.report (misplaced "string" n))

/-- Whether a key asks for the pairs of other mappings. -/
def isMergeKey : Yaml.Node → Bool
  | .scalar _ tag value => tag == "!!merge" && value == "<<"
  | _ => false

def isMapping : Yaml.Node → Bool
  | .mapping .. => true
  | _ => false

/-- The mappings whose pairs a merge key asks for. -/
def merged? (d : Yaml.Document) : Yaml.Node → Option (List Yaml.Node)
  | .sequence _ _ items => if items.all fun n => isMapping (followed d n) then some items else none
  | n => if isMapping (followed d n) then some [n] else none

/-- How far the pairs of a mapping have been read. -/
structure Progress where
  reading : Reading
  /-- The keys that have been set from this mapping. -/
  done : List Text := []
  /-- In a merged mapping, the keys that count no more. -/
  seen : Option (List Text)
  /-- The value of the merge key. -/
  merge : Option Yaml.Node := none

/-- Reads a node that sets a group of settings. Aliases that are being followed are `active`; one
that leads to itself has no meaning. The keys in `seen` have been set by mappings that take
precedence; the result has the keys of this one as well. -/
def Reading.group (d : Yaml.Document) : (rounds : Nat) → (active : List (Nat × Nat)) →
    (typeName : Text) → List (Text × Slot) → (seen : Option (List Text)) → Reading → Yaml.Node →
    Option (Reading × Option (List Text))
  | 0, _, _, _, _, _, _ => none
  | rounds + 1, active, typeName, slots, seen, r, n =>
    match n with
    | .aliasOf line column _ target =>
      if active.contains (line, column) then none
      else
        (d.anchored.lookup target).bind
          (Reading.group d rounds ((line, column) :: active) typeName slots seen r)
    | .mapping _ _ pairs =>
      match repeats pairs with
      | [] => do
        let step (p : Progress) (pair : Yaml.Node × Yaml.Node) : Option Progress :=
          if isMergeKey pair.1 then some { p with merge := some pair.2 }
          else
            (p.reading.key (followed d pair.1)).bind fun (name?, reading) =>
              match name? with
              | none => some { p with reading := reading }
              | some name =>
                if p.seen.any (·.contains name) then some { p with reading := reading }
                else
                  let seen := p.seen.map (name :: ·)
                  match slots.lookup name with
                  | none => some { p with reading := reading, seen := seen }
                  | some slot =>
                    if p.done.contains name then
                      let problem := Problem.repeatedField pair.1.line name typeName
                      some { p with reading := reading.report [problem], seen := seen }
                    else
                      let next : Option Reading :=
                        match slot with
                        | .group inner innerSlots =>
                          (Reading.group d rounds active inner innerSlots none reading pair.2).map
                            (·.1)
                        | slot => reading.single slot (followed d pair.2)
                      next.map fun reading =>
                        { p with reading := reading, seen := seen, done := name :: p.done }
        let p ← pairs.foldlM step { reading := r, seen := seen }
        match p.merge with
        | none => return (p.reading, p.seen)
        | some source =>
          let sources ← merged? d source
          let own := pairs.filterMap fun (k, _) => (p.reading.key (followed d k)).bind (·.1)
          let start := (p.reading, some (p.seen.getD own))
          sources.foldlM (fun (r, seen) m => Reading.group d rounds active typeName slots seen r m)
            start
      | ps => some (r.report ps, seen)
    | n => (r.single (.group typeName slots) n).map (·, seen)

/-- The settings of a file's text, over the default settings. -/
def decode (t : Text) : Except DecodeError Settings :=
  match Yaml.document? t with
  | none => .error .malformed
  | some none => .ok {}
  | some (some d) =>
    let rounds := (t.length + 2) * (t.length + 2)
    match Reading.group d rounds [] "config.Config" slots none {} d.root with
    | none => .error .malformed
    | some (r, _) => if r.problems.isEmpty then .ok r.settings else .error (.problems r.problems)

end SheetFormula.Settings
