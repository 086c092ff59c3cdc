import TrwMemory.Library.Transition
import TrwMemory.Library.Json
import TrwMemory.Library.Keyset
import TrwMemory.Library.Table
import TrwMemory.Models.Entry
import TrwMemory.Models.Columns
import TrwMemory.Security.EvidenceInvariant
import TrwMemory.Sync.RetryQueue
import TrwMemory.Sync.RetryQueueRuns
import TrwMemory.Sync.RetryQueueDelivery
import TrwMemory.Sync.DirtyFeed
import TrwMemory.Sync.PathAgreement
import TrwMemory.Sync.DirtyPaging
import TrwMemory.Storage.RowWrites
import TrwMemory.Sync.SyncHash
import TrwMemory.Sync.MarkSynced
import TrwMemory.Sync.AckRevision
import TrwMemory.Sync.AckExact
import TrwMemory.Embeddings.Provenance
import TrwMemory.Storage.Database
import TrwMemory.Storage.Crud
import TrwMemory.Storage.Sidecars
import TrwMemory.Storage.SidecarCalls
import TrwMemory.Storage.SidecarDeletes
import TrwMemory.Storage.SidecarBatch
import TrwMemory.Storage.SidecarRuns
import TrwMemory.Storage.Connection
import TrwMemory.Storage.VectorOps
import TrwMemory.Tools.StoreInterleavings
import TrwMemory.Lifecycle.Correction
import TrwMemory.Embeddings.VectorText
import TrwMemory.Embeddings.VectorUpdates
import TrwMemory.Embeddings.VectorRuns
import TrwMemory.Tools.StoreEntry
import TrwMemory.Storage.BatchAgreement
import TrwMemory.Storage.StoreManyAgrees
import TrwMemory.Security.EvidenceRuns
import TrwMemory.Library.Records
import TrwMemory.Security.QuarantineLedger
import TrwMemory.Storage.QuarantineReads
import TrwMemory.Sync.SyncedAgreement
import TrwMemory.Sync.HiddenRows
import TrwMemory.Library.IsoText
import TrwMemory.Library.KeysetWalk
import TrwMemory.Models.Timestamps
import TrwMemory.Storage.ListPaging
import TrwMemory.Namespaces.Curate
import TrwMemory.Namespaces.CurateBatch
import TrwMemory.Namespaces.CurateRuns
import TrwMemory.Library.JsonLoads
import TrwMemory.Storage.EvidenceCodec
import TrwMemory.Storage.RowCodec
import TrwMemory.Storage.RowRoundTrip
import TrwMemory.Storage.YamlCodec
import TrwMemory.Storage.CodecRoundTrips
import TrwMemory.Library.Verdicts
import TrwMemory.Storage.TemporalFetch
import TrwMemory.Storage.ColumnVerdicts
import TrwMemory.Storage.JsonVerdicts
import TrwMemory.Storage.TemporalStream
import TrwMemory.Retrieval.ValidityPrior
import TrwMemory.Storage.TemporalAgreement
import TrwMemory.Storage.YamlBackend
import TrwMemory.Storage.YamlNamespaces
import TrwMemory.Sync.Subscriber
import TrwMemory.Sync.SubscriberRuns
import TrwMemory.Graph.Decay
import TrwMemory.Library.HashChain
import TrwMemory.Library.Encodings
import TrwMemory.Library.JsonCompact
import TrwMemory.Security.ProvenanceChain
import TrwMemory.Security.ProvenanceRuns
import TrwMemory.Security.EntryProvenance
import TrwMemory.Security.AuditChain
import TrwMemory.Security.AuditRuns
import TrwMemory.Sync.Conflict
import TrwMemory.Library.Markers
import TrwMemory.Library.Redaction
import TrwMemory.Library.RedactedText
import TrwMemory.Security.ScanNormalize
import TrwMemory.Security.InvisibleSplits
import TrwMemory.Lifecycle.CorrectionEffects
import TrwMemory.Lifecycle.CorrectionGuarantees
import TrwMemory.Lifecycle.CorrectionRows
import TrwMemory.Lifecycle.CorrectionRuns
import TrwMemory.Storage.EntryStore
import TrwMemory.Security.QuarantineReview
import TrwMemory.Security.ReviewHistories
import TrwMemory.Security.ReviewRetries
import TrwMemory.Tools.TeamPromotion
import TrwMemory.Lifecycle.TierMoves
import TrwMemory.Lifecycle.TierArchival
import TrwMemory.Lifecycle.TierPromotion
import TrwMemory.Library.RowLog
import TrwMemory.Library.RowLogParse
import TrwMemory.Library.RowLogWrites
import TrwMemory.Lifecycle.WarmSidecar
import TrwMemory.Lifecycle.SidecarRefines
import TrwMemory.Tools.Forget
import TrwMemory.Tools.ErasureRuns
import TrwMemory.Daemon.Lane
import TrwMemory.Daemon.LaneSlot
import TrwMemory.Daemon.LaneFrames
import TrwMemory.Daemon.LaneFutures
import TrwMemory.Daemon.LaneBodies
import TrwMemory.Library.Regex
import TrwMemory.Security.PiiDetectors
import TrwMemory.Library.Splice
import TrwMemory.Security.PiiRedaction
import TrwMemory.Retrieval.ExpiryEligibility
import TrwMemory.Lifecycle.ExpiryFloor
import TrwMemory.Security.WriteRate
import TrwMemory.Security.WriteRateRuns
import TrwMemory.Lifecycle.GrepVerdicts
import TrwMemory.Lifecycle.VerificationVerdicts
import TrwMemory.Lifecycle.Checkout
import TrwMemory.Lifecycle.CheckoutCoverage
import TrwMemory.Lifecycle.Verification
import TrwMemory.Lifecycle.VerificationRuns
import TrwMemory.Retrieval.Bm25
import TrwMemory.Retrieval.SearchLanes
import TrwMemory.Lifecycle.Clustering
import TrwMemory.Graph.Impact
import TrwMemory.Graph.BreadthFirst
import TrwMemory.Lifecycle.BatchOutcome
import TrwMemory.Retrieval.ValidityOrder
import TrwMemory.Graph.Traversal
import TrwMemory.Lifecycle.BatchDedup
import TrwMemory.Library.StableSort
import TrwMemory.Library.PriorityFill
import TrwMemory.Retrieval.SourcePolicy
import TrwMemory.Retrieval.RecallAcquire
import TrwMemory.Retrieval.HybridSearch
import TrwMemory.Retrieval.HybridRows
import TrwMemory.Retrieval.HybridScores
import TrwMemory.Library.Slots
import TrwMemory.Graph.SimilarityIndex
import TrwMemory.Storage.Sweep
import TrwMemory.Storage.SweepPages
import TrwMemory.Sync.PulledBatch
import TrwMemory.Storage.Transaction
import TrwMemory.Storage.VectorUpsert
import TrwMemory.Library.Recency
import TrwMemory.Lifecycle.TierMirror
import TrwMemory.Lifecycle.TierMirrorRuns
import TrwMemory.Tools.ForgetCanaries
import TrwMemory.Labels.LabelPolicy
import TrwMemory.Labels.LabelTables
import TrwMemory.Labels.LabelAnswers
import TrwMemory.Library.IsoWeeks
import TrwMemory.Storage.Snapshots
import TrwMemory.Storage.SnapshotRuns
import TrwMemory.Daemon.HeldSession
import TrwMemory.Graph.Conflicts
import TrwMemory.Storage.CorruptBackups
import TrwMemory.Storage.BackupPruning
import TrwMemory.Graph.SiblingCache
import TrwMemory.Graph.SiblingViews
import TrwMemory.Library.RegexJoin
import TrwMemory.Security.InjectionScan
import TrwMemory.Storage.FtsPages
import TrwMemory.Embeddings.Neighbours
import TrwMemory.Embeddings.Reembed
import TrwMemory.Embeddings.ReembedRuns
import TrwMemory.Tools.BulkAgrees
import TrwMemory.Storage.FieldReads
import TrwMemory.Storage.RewrittenFields
import TrwMemory.Daemon.LaneBook
import TrwMemory.Daemon.LaneOrder
import TrwMemory.Daemon.LaneRuns
import TrwMemory.Storage.UpdateFrames
import TrwMemory.Library.Programs
import TrwMemory.Lifecycle.Consolidation
import TrwMemory.Lifecycle.ConsolidationUndo
import TrwMemory.Lifecycle.ConsolidationRuns
import TrwMemory.Lifecycle.ConsolidationOutcomes
import TrwMemory.Lifecycle.ConsolidationCycle
import TrwMemory.Lifecycle.CycleRuns
