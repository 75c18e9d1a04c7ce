import HostScript.Host.Scripted
import HostScript.Main
import HostScript.Proofs.Reader.Roundtrip
import HostScript.Proofs.Evaluation.NestingLimit
import HostScript.Proofs.Evaluation.Locality
import HostScript.Proofs.Evaluation.WellFormed
import HostScript.Proofs.Evaluation.Calls
import HostScript.Proofs.Evaluation.Confinement
import HostScript.Proofs.Evaluation.Validation
import HostScript.Proofs.Evaluation.Reports
import HostScript.Proofs.Evaluation.Counter
import HostScript.Proofs.Evaluation.Heads
import HostScript.Proofs.Evaluation.Sequence
import HostScript.Proofs.Evaluation.Quotation
import HostScript.Proofs.Reader.Atoms
import HostScript.Proofs.Reader.Concatenation
import HostScript.Proofs.Text.Unbroken
import HostScript.Proofs.Evaluation.OneLine
import HostScript.Proofs.Runner.Output
import HostScript.Proofs.Value.Equality
import HostScript.Proofs.Evaluation.Commands
import HostScript.Proofs.Reader.Prefixes
import HostScript.Proofs.Reader.Descent
import HostScript.Proofs.Reader.Agreement
import HostScript.Proofs.Reader.Refusals
import HostScript.Proofs.Number.Nearest
import HostScript.Proofs.Reader.Classification
import HostScript.Proofs.Settings.Lookup
import HostScript.Proofs.Evaluation.Timing
import HostScript.Proofs.Reader.Literals
import HostScript.Proofs.Reader.Progress
