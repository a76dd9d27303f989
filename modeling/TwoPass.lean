import TwoPass.Assembly.Run
import TwoPass.CommandLine.Run
import TwoPass.Main
import TwoPass.Object.File
import TwoPass.Proofs.Accounting
import TwoPass.Proofs.Agreement
import TwoPass.Proofs.Building
import TwoPass.Proofs.Canonical
import TwoPass.Proofs.Constants
import TwoPass.Proofs.Definitions
import TwoPass.Proofs.Failures
import TwoPass.Proofs.HexFields
import TwoPass.Proofs.Invocations
import TwoPass.Proofs.Language
import TwoPass.Proofs.Limit
import TwoPass.Proofs.LineEnds
import TwoPass.Proofs.Listings
import TwoPass.Proofs.Literals
import TwoPass.Proofs.Meaning
import TwoPass.Proofs.Phases
import TwoPass.Proofs.ReadBack
import TwoPass.Proofs.Relocation
import TwoPass.Proofs.Sessions
import TwoPass.Proofs.Splitting
import TwoPass.Proofs.Stores
import TwoPass.Proofs.Strictness
import TwoPass.Proofs.Truncation
import TwoPass.Proofs.Words
import TwoPass.Session
