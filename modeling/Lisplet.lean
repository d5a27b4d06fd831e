import Lisplet.Main
import Lisplet.Value.Inspect
import Lisplet.Proofs.Lexemes
import Lisplet.Proofs.Numerals
import Lisplet.Proofs.Printer
import Lisplet.Proofs.RealText
import Lisplet.Proofs.RoundTrip
import Lisplet.Proofs.Grammar
import Lisplet.Proofs.Congruence
import Lisplet.Proofs.Fuel
import Lisplet.Proofs.Depth
import Lisplet.Proofs.BigStep
import Lisplet.Proofs.FormEnds
import Lisplet.Proofs.BigStepSound
import Lisplet.Proofs.BigStepComplete
import Lisplet.Proofs.Closures
import Lisplet.Proofs.Upkeep
import Lisplet.Proofs.UpkeepRuns
import Lisplet.Proofs.UpkeepStarts
import Lisplet.Proofs.Custody
import Lisplet.Proofs.Ledger
import Lisplet.Proofs.SessionStore
import Lisplet.Proofs.Patching
import Lisplet.Proofs.Rounding
import Lisplet.Proofs.Scientific
import Lisplet.Proofs.ShortestDecimal
import Lisplet.Proofs.Tiling
import Lisplet.Proofs.LetBinding
import Lisplet.Proofs.Batch
import Lisplet.Proofs.Concatenation
import Lisplet.Proofs.TokenFaults
import Lisplet.Proofs.Comments
import Lisplet.Proofs.Streaming
import Lisplet.Proofs.Progress
import Lisplet.Proofs.Excerpts
import Lisplet.Proofs.Activations
import Lisplet.Proofs.Composites
import Lisplet.Proofs.EvaluatedText
import Lisplet.Proofs.Calls
import Lisplet.Proofs.HostDepth
import Lisplet.Proofs.Composition
import Lisplet.Proofs.Names
import Lisplet.Proofs.Hygiene
import Lisplet.Proofs.HygienicRuns
import Lisplet.Proofs.SessionHygiene
import Lisplet.Proofs.Currying
import Lisplet.Proofs.Applications
import Lisplet.Proofs.Seclusion
import Lisplet.Proofs.Library
import Lisplet.Proofs.Integers
import Lisplet.Proofs.LibraryCalls
import Lisplet.Proofs.LeftFold
import Lisplet.Proofs.ListFunctions
import Lisplet.Proofs.Visitors
import Lisplet.Proofs.Ranges
import Lisplet.Proofs.Equality
import Lisplet.Proofs.Operators
import Lisplet.Proofs.Definitions
import Lisplet.Proofs.TailLoops
import Lisplet.Proofs.DepthLimit
import Lisplet.Proofs.Parameters
import Lisplet.Proofs.Malformed
import Lisplet.Proofs.Visible
import Lisplet.Proofs.Moments
import Lisplet.Proofs.ClosureIdentity
import Lisplet.Proofs.CallFrames
