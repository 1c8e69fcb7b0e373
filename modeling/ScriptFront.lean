import ScriptFront.Diagnostic
import ScriptFront.Parser.Session
import ScriptFront.Program.Equality
import ScriptFront.Render.Format
import ScriptFront.Command.Flag
import ScriptFront.Command.Invocation
import ScriptFront.Command.Output
import ScriptFront.Command.Parse
import ScriptFront.Command.Run
import ScriptFront.Main
import ScriptFront.Proofs.Batch.Interleaving
import ScriptFront.Proofs.Concatenation
import ScriptFront.Proofs.Consumption.ErrorDiscipline
import ScriptFront.Proofs.Consumption.Lookahead
import ScriptFront.Proofs.Dump.Lines
import ScriptFront.Proofs.Dump.RoundTrip
import ScriptFront.Proofs.Dump.Tokens
import ScriptFront.Proofs.LayoutInsertion
import ScriptFront.Proofs.Listing
import ScriptFront.Proofs.Parallel.NestingLimit
import ScriptFront.Proofs.Prefix.FirstFault
import ScriptFront.Proofs.Render.Formats
import ScriptFront.Proofs.Render.Totality
import ScriptFront.Proofs.Scanner.Faults
import ScriptFront.Proofs.Scanner.LiteralCodec
import ScriptFront.Proofs.Scanner.Stream
import ScriptFront.Proofs.ScanningAhead
import ScriptFront.Proofs.Session
import ScriptFront.Proofs.TokenList
import ScriptFront.Proofs.Watch.Debounce
import ScriptFront.Proofs.Watch.Pending
