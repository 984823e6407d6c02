import SheetFormula.Text

/-!
# Usage
-/

namespace SheetFormula.Usage

/-- What the program is called and which build of it this is. -/
def version : Text := "jsxl version dev (unknown)\n"

def lines : List String :=
  ["jsxl - Compile JavaScript syntax trees to spreadsheet formulas",
   "",
   "Usage:",
   "  jsxl [build] [options] [FILE|DIR|-]...",
   "  jsxl check [options] [FILE|DIR|-]...",
   "  jsxl watch [options] [DIR]...",
   "  jsxl expr [options] [FILE|-]",
   "",
   "Commands:",
   "  build    Compile units and write their artifacts (default)",
   "  check    Compile units and report errors without writing anything",
   "  watch    Build, then rebuild units whenever their files change",
   "  expr     Compile a single ESTree expression node",
   "",
   "Inputs are ESTree JSON files, such as the output of acorn with",
   "sourceType \"module\". Directories are searched for *.json units.",
   "\"-\" (or no input) reads one unit from stdin and prints the result.",
   "",
   "Options:",
   "  --config PATH      Path to config file (default: auto-detect)",
   "  --mode MODE        packed (one formula) or unpacked (one per binding)",
   "  --members MODE     nested (a.b.c) or two-level member flattening",
   "  --out DIR          Write artifacts to DIR instead of next to each unit",
   "  --manifest KIND    Export manifest: json, yaml, sqlite or off",
   "  --print            Print artifacts to stdout instead of writing files",
   "  --json             Report compile errors as JSON",
   "  --quiet            Only log errors",
   "  --version          Show version",
   "  --help             Show this help",
   "",
   "Artifacts:",
   "  packed      <unit>.formula",
   "  unpacked    <unit>.formulas.json  (bindings, then _main_)",
   "  manifest    <unit>.exports.json or .exports.yaml, or the sqlite store",
   "",
   "Config Resolution:",
   "  1. --config flag",
   "  2. JSXL_CONFIG environment variable",
   "  3. ./jsxl.yaml",
   "  4. built-in defaults",
   "",
   "Examples:",
   "  acorn --ecma2020 --module --locations calc.js > calc.json",
   "  jsxl calc.json                     Write calc.formula and calc.exports.json",
   "  jsxl --mode unpacked calc.json     Write calc.formulas.json",
   "  jsxl --print - < calc.json         Print the packed formula",
   "  jsxl check src/                    Compile everything under src/",
   "  jsxl watch --manifest sqlite src/  Rebuild on change, manifests in SQLite",
   ""]

def text : Text := Text.eachBefore "\n" (lines.map Text.ofString)

end SheetFormula.Usage
