import ConfigScript.Cli.Switch

/-!
# Cli/Usage — how the program is used

The usage in brief, and the help with a line for the input and for each option.  What a line is
about stands at its start, and what it is for in a column of its own, on the next line if there is
no room.
-/

namespace ConfigScript.Cli

/-- The name of the program. -/
def programName : String := "confscan"

/-- **The usage in brief.** -/
def usage : String :=
  "usage: confscan [-h] [-o OUTPUT] [--format \x7btext,json\x7d] [--skip-whitespace]\n"
    ++ "                [--skip-comments] [--config FILE] [--debug]\n"
    ++ "                input\n"

/-- So many blanks. -/
def padding (n : Nat) : String := String.ofList (List.replicate n ' ')

/-- The column in which it stands what a thing is for. -/
def purposeColumn : Nat := 24

/-- A line of the help: a subject and its purpose.  At least two blanks stand between them. -/
def helpLine (subject purpose : String) : String :=
  let start := "  " ++ subject
  if start.length + 2 ≤ purposeColumn then
    start ++ padding (purposeColumn - start.length) ++ purpose ++ "\n"
  else start ++ "\n" ++ padding purposeColumn ++ purpose ++ "\n"

/-- An option as the help names it: each spelling with the name of the value. -/
def Switch.subject (o : Switch) : String :=
  let value := if o.takesValue then " " ++ o.valueName else ""
  ", ".intercalate (o.spellings.map (· ++ value))

/-- **The help.** -/
def help : String :=
  usage
    ++ "\nScan a config file and print its tokens\n"
    ++ "\npositional arguments:\n"
    ++ helpLine "input" "Input file, or - for stdin"
    ++ "\noptions:\n"
    ++ String.join (Switch.all.map fun o => helpLine o.subject o.purpose)

end ConfigScript.Cli
