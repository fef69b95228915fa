import CoreShell.Main
import CoreShell.Proofs.Chains
import CoreShell.Proofs.Convergence
import CoreShell.Proofs.Derivation
import CoreShell.Proofs.Order
import CoreShell.Proofs.Parallel
import CoreShell.Proofs.Resume
import CoreShell.Proofs.Untouched
import CoreShell.Proofs.Reruns
import CoreShell.Proofs.Trail
import CoreShell.Proofs.Evaluation
import CoreShell.Proofs.Replacement
import CoreShell.Proofs.Endings
import CoreShell.Proofs.Catalogs
import CoreShell.Proofs.Records
import CoreShell.Proofs.RootCauses
import CoreShell.Proofs.Blame
import CoreShell.Proofs.Recursion
import CoreShell.Proofs.Extension
import CoreShell.Proofs.Scope
import CoreShell.Proofs.Edits
import CoreShell.Proofs.Overriders
import CoreShell.Proofs.Names
import CoreShell.Proofs.Mentions
import CoreShell.Proofs.Consistency
import CoreShell.Proofs.Agreement
import CoreShell.Proofs.Freshness
import CoreShell.Proofs.LocalRules
import CoreShell.Proofs.Explanations
import CoreShell.Proofs.ShellEdges
import CoreShell.Proofs.CallCycles
import CoreShell.Proofs.QualifiedNames
import CoreShell.Proofs.Paths
import CoreShell.Proofs.Discovery
import CoreShell.Proofs.JsonTexts
import CoreShell.Proofs.JsonValues
import CoreShell.Proofs.GraphDocuments
import CoreShell.Proofs.CallRule
import CoreShell.Proofs.Listings
import CoreShell.Proofs.Contexts
import CoreShell.Proofs.Overrides
