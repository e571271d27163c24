/-!
# Cli/Switch — the options of the command line

An option has a spelling with two dashes and sometimes one with a single dash and a letter.  A
spelling with two dashes may be cut short as long as it fits only one option.
-/

namespace ConfigScript.Cli

/-- **The options of the command line.** -/
inductive Switch where
  | help
  | output
  | format
  | skipWhitespace
  | skipComments
  | config
  | debug
deriving DecidableEq

namespace Switch

/-- All options in the order in which they are listed. -/
def all : List Switch := [help, output, format, skipWhitespace, skipComments, config, debug]

/-- The spellings of an option. -/
def spellings : Switch → List String
  | help => ["-h", "--help"]
  | output => ["-o", "--output"]
  | format => ["--format"]
  | skipWhitespace => ["--skip-whitespace"]
  | skipComments => ["--skip-comments"]
  | config => ["--config"]
  | debug => ["--debug"]

/-- Whether an option needs a value. -/
def takesValue : Switch → Bool
  | output | format | config => true
  | help | skipWhitespace | skipComments | debug => false

/-- What the value of an option is called in the help. -/
def valueName : Switch → String
  | output => "OUTPUT"
  | format => "\x7btext,json\x7d"
  | config => "FILE"
  | help | skipWhitespace | skipComments | debug => ""

/-- What an option is for. -/
def purpose : Switch → String
  | help => "show this help message and exit"
  | output => "Output file (default: stdout)"
  | format => "Output format (default: text)"
  | skipWhitespace => "Omit White Space tokens from the output"
  | skipComments => "Omit Comment tokens from the output"
  | config => "Config file (default: auto-discover confscan.toml)"
  | debug => "Log scanner activity to stderr"

/-- All spellings of an option at once. -/
def label (o : Switch) : String := "/".intercalate o.spellings

/-- All spellings with their options. -/
def table : List (String × Switch) := all.flatMap fun o => o.spellings.map (·, o)

/-- The option that is spelled so. -/
def ofSpelling? (s : String) : Option Switch := table.lookup s

/-- The option that one dash and a letter spell. -/
def ofLetter? (c : Char) : Option Switch := ofSpelling? (String.ofList ['-', c])

/-- **The spellings that begin so**, with their options. -/
def candidates (start : List Char) : List (String × Switch) :=
  table.filter fun (s, _) => start.isPrefixOf s.toList

theorem mem_all (o : Switch) : o ∈ all := by cases o <;> decide

/-- **Each option is found by each of its spellings.** -/
theorem ofSpelling?_of_mem : ∀ o ∈ all, ∀ s ∈ o.spellings, ofSpelling? s = some o := by decide

end Switch

end ConfigScript.Cli
