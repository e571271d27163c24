import ConfigScript.Diagnostics
import ConfigScript.Main
import ConfigScript.Proofs.Source.Positions
import ConfigScript.Session
import ConfigScript.Proofs.Source.Outlook
import ConfigScript.Proofs.Source.Incoming
import ConfigScript.Proofs.Lexis.Reach
import ConfigScript.Proofs.Lexis.Scanning
import ConfigScript.Proofs.Lexis.Grammar
import ConfigScript.Proofs.Lexis.Lossless
import ConfigScript.Proofs.Lexis.Pieces
import ConfigScript.Proofs.Lexis.Printing
import ConfigScript.Proofs.Lexis.Cutting
import ConfigScript.Proofs.Lexis.Unclosed
import ConfigScript.Proofs.Text.LineEnds
import ConfigScript.Proofs.Text.Excerpt
import ConfigScript.Proofs.Text.Pairs
import ConfigScript.Proofs.Cli.Completion
import ConfigScript.Proofs.Editor.Ranges
import ConfigScript.Proofs.Editor.Newlines
import ConfigScript.Proofs.Lexis.Growing
import ConfigScript.Proofs.Source.Hearing
import ConfigScript.Proofs.Lexis.Calls
import ConfigScript.Proofs.Lexis.Resuming
import ConfigScript.Proofs.Lexis.Absorbing
import ConfigScript.Proofs.Cli.Provenance
import ConfigScript.Proofs.Toml.OneLine
import ConfigScript.Proofs.Toml.Shown
import ConfigScript.Proofs.Cli.Settings
import ConfigScript.Proofs.Cli.Log
import ConfigScript.Proofs.Cli.Circumstances
import ConfigScript.Proofs.Cli.Atomicity
import ConfigScript.Proofs.Source.Operations
import ConfigScript.Proofs.Source.Placement
import ConfigScript.Proofs.Source.Transparency
import ConfigScript.Proofs.Lexis.Sharing
import ConfigScript.Proofs.Lexis.Blameless
import ConfigScript.Proofs.Source.Retracing
import ConfigScript.Proofs.Source.Drawing
import ConfigScript.Proofs.Lexis.Lookahead
import ConfigScript.Proofs.Lexis.Arming
import ConfigScript.Proofs.Text.Spelling
import ConfigScript.Proofs.Text.Dumping
import ConfigScript.Proofs.Json.Grammar
import ConfigScript.Proofs.Json.Decoding
import ConfigScript.Proofs.Cli.Precedence
import ConfigScript.Proofs.Lexis.Exhaustion
import ConfigScript.Proofs.Cli.Observation
