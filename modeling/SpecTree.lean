import SpecTree.Build.Schema
import SpecTree.Hash.Sha256
import SpecTree.Include.Schema
import SpecTree.Metrics.Summary
import SpecTree.Plan.Options
import SpecTree.Plan.Schema
import SpecTree.Project.Build
import SpecTree.Project.Compile
import SpecTree.Proofs.Build.Batches
import SpecTree.Proofs.Build.Handoff
import SpecTree.Proofs.Build.Markers
import SpecTree.Proofs.Build.Tally
import SpecTree.Proofs.Context.Fingerprint
import SpecTree.Proofs.Include.Inlining
import SpecTree.Proofs.Include.Keys
import SpecTree.Proofs.Plan.Artifacts
import SpecTree.Proofs.Plan.Branch
import SpecTree.Proofs.Plan.Isolation
import SpecTree.Proofs.Plan.Stages
import SpecTree.Proofs.Project.Diagnostics
import SpecTree.Proofs.Provider.Decoding
import SpecTree.Proofs.Resilience.Recovery
import SpecTree.Proofs.Spec.Braces
import SpecTree.Proofs.Spec.Progress
import SpecTree.Proofs.Spec.Stability
import SpecTree.Provider.Chat
import SpecTree.Provider.Registry
import SpecTree.Settings.Environment
import SpecTree.Store.View
import SpecTree.Proofs.Build.Overlap
import SpecTree.Proofs.Build.Locations
import SpecTree.Proofs.Spec.Params
import SpecTree.Proofs.Spec.Borders
import SpecTree.Proofs.Spec.Verbatim
import SpecTree.Proofs.Spec.Unclosed
import SpecTree.Proofs.Include.Reads
import SpecTree.Proofs.Provider.Extraction
import SpecTree.Proofs.Plan.Unwrapping
import SpecTree.Proofs.Provider.Failures
import SpecTree.Proofs.Build.Provenance
import SpecTree.Proofs.Resilience.Attempts
import SpecTree.Proofs.Plan.Siblings
import SpecTree.Proofs.Spec.Neighbours
import SpecTree.Proofs.Provider.Configured
