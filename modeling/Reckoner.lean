import Reckoner.Main
import Reckoner.Proofs.CommandLine.InputPaths
import Reckoner.Proofs.Evaluation.LetBinding
import Reckoner.Proofs.Evaluation.Samples
import Reckoner.Proofs.Number.Rereading
import Reckoner.Proofs.Parsing.Consumption
import Reckoner.Proofs.Parsing.Rendering
import Reckoner.Proofs.Parsing.Termination
import Reckoner.Proofs.Reference.Rules
import Reckoner.Proofs.Session.Commutation
import Reckoner.Proofs.Session.Spacing
import Reckoner.Proofs.Session.WholeNumbers
import Reckoner.Proofs.Token.Runs
import Reckoner.Sample
import Reckoner.Tour
