import ClassLang.Grammar.Written
import ClassLang.Main
import ClassLang.Proofs.DepthLimit
import ClassLang.Proofs.Frame
import ClassLang.Proofs.Parser.Reads
import ClassLang.Proofs.Parser.ExprSound
import ClassLang.Proofs.Parser.ExprComplete
import ClassLang.Proofs.Parser.StmtSound
import ClassLang.Proofs.Parser.StmtComplete
import ClassLang.Proofs.Parser.Program
import ClassLang.Proofs.Parser.Order
import ClassLang.Proofs.Parser.OwnTokens
import ClassLang.Proofs.Parser.Reader
import ClassLang.Proofs.Parser.Lookahead
import ClassLang.Proofs.Parser.Viable
import ClassLang.Proofs.Parser.ExprViable
import ClassLang.Proofs.Parser.StmtViable
import ClassLang.Proofs.Parser.ProgramViable
import ClassLang.Proofs.Parser.FirstError
import ClassLang.Proofs.Parser.WellFormed
import ClassLang.Proofs.Parser.VoidTypes
import ClassLang.Proofs.Scanner.Spelling
import ClassLang.Proofs.Scanner.Written
import ClassLang.Proofs.Scanner.Ignorable
import ClassLang.Proofs.Scanner.Meaning
import ClassLang.Proofs.Scanner.Accounting
import ClassLang.Proofs.Scanner.TokenRoundTrip
import ClassLang.Proofs.Scanner.Rows
import ClassLang.Proofs.Scanner.Munch
import ClassLang.Proofs.Scanner.Limits
import ClassLang.Proofs.Scanner.Numerals
import ClassLang.Proofs.RoundTrip
import ClassLang.Proofs.Alike
import ClassLang.Proofs.Mimics
import ClassLang.Proofs.Layering
import ClassLang.Proofs.Repeat
import ClassLang.Proofs.Lasting
import ClassLang.Proofs.Sparing
import ClassLang.Proofs.CopyBack
import ClassLang.Proofs.Objects
import ClassLang.Proofs.Safe
import ClassLang.Proofs.SafeSteps
import ClassLang.Proofs.SafeCalls
import ClassLang.Proofs.Representation
import ClassLang.Proofs.Pruned
import ClassLang.Proofs.DeadCode
import ClassLang.Proofs.Routines
import ClassLang.Proofs.Fitting
import ClassLang.Proofs.Guarded
import ClassLang.Proofs.ParsedShape
import ClassLang.Proofs.Whole
import ClassLang.Proofs.Steady
import ClassLang.Proofs.SteadySteps
import ClassLang.Proofs.SteadyCalls
import ClassLang.Proofs.NeverWritten
import ClassLang.Proofs.Levels
import ClassLang.Proofs.History
import ClassLang.Proofs.ByReference
import ClassLang.Proofs.Termination
import ClassLang.Proofs.Reached
import ClassLang.Proofs.Construction
import ClassLang.Proofs.CallScope
import ClassLang.Proofs.Layout
import ClassLang.Proofs.Legible
import ClassLang.Proofs.Arithmetic
