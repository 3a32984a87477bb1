import PathFacts.Proofs.Body.Growth
import PathFacts.Proofs.Body.Isolation
import PathFacts.Proofs.Cache.Permits
import PathFacts.Proofs.Cache.Provenance
import PathFacts.Proofs.Evidence.Constants
import PathFacts.Proofs.Memory.Refinement
import PathFacts.Proofs.Session.Agreement
import PathFacts.Proofs.Session.Renewal
import PathFacts.Proofs.Session.Soundness
import PathFacts.Proofs.Settings.Choice
import PathFacts.Proofs.Tree.Circles
