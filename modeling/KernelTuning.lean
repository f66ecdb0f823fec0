import KernelTuning.Batch
import KernelTuning.Host
import KernelTuning.Session.Records
import KernelTuning.Session.View
import KernelTuning.Proofs.Running
import KernelTuning.Proofs.Creation
import KernelTuning.Proofs.Geometry
import KernelTuning.Proofs.Builds
import KernelTuning.Proofs.Candidates
import KernelTuning.Proofs.CacheUse
import KernelTuning.Proofs.StorageFrame
import KernelTuning.Proofs.Enqueueing
import KernelTuning.Proofs.SortingPasses
import KernelTuning.Proofs.JsonLiterals
import KernelTuning.Proofs.Rounding
import KernelTuning.Proofs.DecimalText
import KernelTuning.Proofs.JsonReading
import KernelTuning.Proofs.Codecs
import KernelTuning.Proofs.Searching
import KernelTuning.Proofs.CacheStability
import KernelTuning.Proofs.CacheMap
import KernelTuning.Proofs.Blocks
import KernelTuning.Proofs.Arguments
import KernelTuning.Proofs.Requests
import KernelTuning.Proofs.Executions
import KernelTuning.Proofs.Acceptance
import KernelTuning.Proofs.Measuring
import KernelTuning.Proofs.Constructing
import KernelTuning.Proofs.CrashFree
import KernelTuning.Proofs.Targets
import KernelTuning.Proofs.Batches
import KernelTuning.Proofs.RoundingError
import KernelTuning.Proofs.ScoreReading
import KernelTuning.Proofs.RoundTrip
import KernelTuning.Proofs.Custody
import KernelTuning.Proofs.Ownership
import KernelTuning.Proofs.LowestScores
import KernelTuning.Proofs.SortedBits
import KernelTuning.Proofs.FileTrees
import KernelTuning.Proofs.Directories
import KernelTuning.Proofs.DirectoryRecords
import KernelTuning.Proofs.StorageAgreement
import KernelTuning.Proofs.StagedSearch
import KernelTuning.Proofs.Reports
import KernelTuning.Proofs.BlockCover
import KernelTuning.Proofs.ScanRoom
import KernelTuning.Proofs.NormalForm
import KernelTuning.Proofs.WordOverflow
import KernelTuning.Proofs.Segments
import KernelTuning.Proofs.SortRoom
import KernelTuning.Proofs.BufferRoles
import KernelTuning.Proofs.Clearing
import KernelTuning.Proofs.SharedDirectories
import KernelTuning.Proofs.SingleRecords
import KernelTuning.Proofs.Resanitizing
import KernelTuning.Proofs.Unambiguous
import KernelTuning.Proofs.KeyPaths
import KernelTuning.Proofs.Fingerprints
import KernelTuning.Proofs.SpaceTexts
import KernelTuning.Proofs.FaithfulStorages
import KernelTuning.Proofs.PersistedSpaces
import KernelTuning.Proofs.PowersOfTwo
import KernelTuning.Proofs.CanonicalParameters
import KernelTuning.Proofs.StoredScores
