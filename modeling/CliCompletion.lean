import CliCompletion.Main
import CliCompletion.Proofs.ObjectIdentity
import CliCompletion.Proofs.Registrations
import CliCompletion.Proofs.Enumerations
import CliCompletion.Proofs.ArgumentDirectives
import CliCompletion.Proofs.Renaming
import CliCompletion.Proofs.Unfolding
import CliCompletion.Proofs.Relocation
import CliCompletion.Proofs.IgnoredKeywords
import CliCompletion.Proofs.Growth
import CliCompletion.Proofs.SourceLines
import CliCompletion.Proofs.Writing
import CliCompletion.Proofs.Runs
import CliCompletion.Proofs.Culprits
import CliCompletion.Proofs.Failures
import CliCompletion.Proofs.Locations
import CliCompletion.Proofs.JsonGrammar
import CliCompletion.Proofs.JsonReading
import CliCompletion.Proofs.JsonFidelity
import CliCompletion.Proofs.LineFormats
import CliCompletion.Proofs.DiscoveryOrder
import CliCompletion.Proofs.ArgumentCalls
import CliCompletion.Proofs.Roots
import CliCompletion.Proofs.Paths
import CliCompletion.Proofs.Braces
import CliCompletion.Proofs.Numerals
import CliCompletion.Proofs.HintPairs
import CliCompletion.Proofs.TrailingHints
import CliCompletion.Proofs.NearestConfig
import CliCompletion.Proofs.AssignedNames
