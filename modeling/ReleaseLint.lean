import ReleaseLint.Main
import ReleaseLint.Proofs.Archive.Extraction
import ReleaseLint.Proofs.Cache.Canonical
import ReleaseLint.Proofs.Cache.Concurrency
import ReleaseLint.Proofs.Cache.Confinement
import ReleaseLint.Proofs.Cache.Queries
import ReleaseLint.Proofs.Checksum.Manifest
import ReleaseLint.Proofs.Config.Blank
import ReleaseLint.Proofs.Config.Named
import ReleaseLint.Proofs.Config.Settled
import ReleaseLint.Proofs.Finding.Lines
import ReleaseLint.Proofs.Finding.StandIn
import ReleaseLint.Proofs.Finding.Truncation
import ReleaseLint.Proofs.Glob.Containment
import ReleaseLint.Proofs.Glob.Splitting
import ReleaseLint.Proofs.Ignore.Purpose
import ReleaseLint.Proofs.Lint.Distinct
import ReleaseLint.Proofs.Lint.Interference
import ReleaseLint.Proofs.Lint.Strict
import ReleaseLint.Proofs.Lint.Template
import ReleaseLint.Proofs.Manifest.Identity
import ReleaseLint.Proofs.Manifest.Reading
import ReleaseLint.Proofs.Path.Canonical
import ReleaseLint.Proofs.Relocation.Resource
import ReleaseLint.Proofs.Report.Reading
import ReleaseLint.Proofs.Resource.Bypass
import ReleaseLint.Proofs.Resource.Charts
import ReleaseLint.Proofs.Resource.Detection
import ReleaseLint.Proofs.Resource.Kinds
import ReleaseLint.Proofs.Resource.SupportBundles
import ReleaseLint.Proofs.Resource.Usable
import ReleaseLint.Proofs.Version.Outdated
