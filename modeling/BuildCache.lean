import BuildCache.Config.Loading
import BuildCache.Proofs.Additions
import BuildCache.Proofs.AliasTargets
import BuildCache.Proofs.Aliases
import BuildCache.Proofs.AtRest
import BuildCache.Proofs.CacheDirectory
import BuildCache.Proofs.Catalog
import BuildCache.Proofs.ChangedDependencies
import BuildCache.Proofs.Collection
import BuildCache.Proofs.Confinement
import BuildCache.Proofs.Corruption
import BuildCache.Proofs.Edges
import BuildCache.Proofs.FailedCommits
import BuildCache.Proofs.Fingerprint
import BuildCache.Proofs.HashText
import BuildCache.Proofs.ImportOrder
import BuildCache.Proofs.Importers
import BuildCache.Proofs.NormalForms
import BuildCache.Proofs.Normalization
import BuildCache.Proofs.Persistence
import BuildCache.Proofs.Relisting
import BuildCache.Proofs.Replacement
import BuildCache.Proofs.Rereading
import BuildCache.Proofs.ResolvedPaths
import BuildCache.Proofs.Separation
import BuildCache.Proofs.Serializing
import BuildCache.Proofs.Sweep
import BuildCache.Proofs.Termination
import BuildCache.Proofs.Versions
