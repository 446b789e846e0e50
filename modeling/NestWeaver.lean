import NestWeaver.Framework.Utf8
import NestWeaver.Framework.Hir
import NestWeaver.Framework.WorkLoop
import NestWeaver.Framework.Transition
import NestWeaver.Framework.WidestPath
import NestWeaver.Framework.FirstSeen
import NestWeaver.Framework.Json
import NestWeaver.Framework.JsonPath
import NestWeaver.Framework.DeltaLog
import NestWeaver.Framework.Framing
import NestWeaver.Framework.Strings
import NestWeaver.Framework.MapOrder
import NestWeaver.Framework.Lines
import NestWeaver.Framework.Chains
import NestWeaver.Framework.GreedyMatching
import NestWeaver.Schema
import NestWeaver.Schema.RepoUrl
import NestWeaver.Schema.RepoUrlKeys
import NestWeaver.Schema.Uid
import NestWeaver.Schema.UidCodec
import NestWeaver.Framework.Segments
import NestWeaver.Schema.CanonicalIds
import NestWeaver.Schema.Contracts
import NestWeaver.Algorithms.Graph
import NestWeaver.Algorithms.Ppr
import NestWeaver.Algorithms.PprMass
import NestWeaver.Algorithms.Impact
import NestWeaver.Store.Traverse.ImpactWalk
import NestWeaver.Store.Traverse.ImpactWalkInvariant
import NestWeaver.Store.Traverse.CallerPaths
import NestWeaver.Store.Traverse.ImpactFlags
import NestWeaver.Store.Traverse.ImpactBest
import NestWeaver.Store.Traverse.ImpactDepths
import NestWeaver.Engine.ImpactReachers
import NestWeaver.Engine.ReacherDepths
import NestWeaver.Engine.AffectedTests
import NestWeaver.Engine.BlastRadius
import NestWeaver.Engine.BlastRadiusOrder
import NestWeaver.Engine.DeadCode
import NestWeaver.Engine.DeadCodePage
import NestWeaver.Engine.DeadCodeRepos
import NestWeaver.Engine.DeadCodeCriterion
import NestWeaver.Engine.Authz
import NestWeaver.Engine.AuthzRedaction
import NestWeaver.Engine.Signature
import NestWeaver.Engine.AtomicChanges
import NestWeaver.Engine.AtomicChangesConservation
import NestWeaver.Engine.AtomicChangesOrder
import NestWeaver.Engine.Members
import NestWeaver.Engine.SignatureSplit
import NestWeaver.Engine.JobQueue
import NestWeaver.Engine.JobQueueFencing
import NestWeaver.Engine.JobQueueTriggers
import NestWeaver.Engine.JobQueueBudget
import NestWeaver.Engine.CircuitBreaker
import NestWeaver.Store.Regex.Trigram
import NestWeaver.Store.Regex.TrigramSoundness
import NestWeaver.Store.Shard.Scope
import NestWeaver.Store.Shard.CrashSafety
import NestWeaver.Store.Embedding.Index
import NestWeaver.Store.Embedding.Search
import NestWeaver.Store.Embedding.Artifact
import NestWeaver.Store.Embedding.SemanticSpace
import NestWeaver.Store.Embedding.Journal
import NestWeaver.Store.Embedding.Layers
import NestWeaver.Store.Embedding.JournalSteps
import NestWeaver.Store.Embedding.JournalInvariant
import NestWeaver.Store.Embedding.JournalFaithful
import NestWeaver.Store.Embedding.JournalRuns
import NestWeaver.Store.Embedding.ArtifactRoundTrip
import NestWeaver.Mcp.Text
import NestWeaver.Mcp.Protocol
import NestWeaver.Mcp.Session
import NestWeaver.Mcp.SessionProtocol
import NestWeaver.Mcp.SingleFlight
import NestWeaver.Mcp.OutputBudget
import NestWeaver.Mcp.OutputReduction
import NestWeaver.Mcp.DeadCodePaging
import NestWeaver.Store.Publication.OneGraph
import NestWeaver.Store.Publication.Marker
import NestWeaver.Store.Publication.GraphCacheFresh
import NestWeaver.Store.Shard.RefreshExact
import NestWeaver.Engine.PollScheduler
import NestWeaver.Federation.Ejection
import NestWeaver.Store.StableAnchor
import NestWeaver.Store.NativeAdmission
import NestWeaver.Store.ResponseCache
import NestWeaver.Store.ResponseCacheRuns
import NestWeaver.Engine.Drain
import NestWeaver.Federation.Merge
import NestWeaver.Federation.TwoTier
import NestWeaver.Schema.RepoUrlSpellings
import NestWeaver.Engine.SsrfSpellings
import NestWeaver.Framework.Postings
import NestWeaver.Store.Shard.PostingDelta
import NestWeaver.Engine.GitDiff
import NestWeaver.Mcp.Frames
import NestWeaver.Store.Traverse.NamePage
import NestWeaver.Resolver.RelativeImports
import NestWeaver.Resolver.ExportTargets
import NestWeaver.Parser.Sections
import NestWeaver.Parser.HeadingSlugs
import NestWeaver.Parser.Frontmatter
import NestWeaver.Parser.SectionPartition
import NestWeaver.Parser.SectionItems
import NestWeaver.Parser.NoteText
import NestWeaver.Parser.NotePositions
import NestWeaver.Engine.CoChange
import NestWeaver.Framework.EditDistance
import NestWeaver.Engine.DidYouMean
import NestWeaver.Framework.ByteOffsets
import NestWeaver.Framework.LittleEndian
import NestWeaver.Framework.Guarded
import NestWeaver.Framework.ParallelTop
import NestWeaver.Framework.Origins
import NestWeaver.Store.Regex.SectionLines
import NestWeaver.Framework.Checked
import NestWeaver.Framework.Selector
import NestWeaver.Engine.Publication.Slot
import NestWeaver.Engine.Publication.Journal
import NestWeaver.Engine.Publication.Root
import NestWeaver.Engine.Publication.System
import NestWeaver.Engine.Publication.Invariant
import NestWeaver.Engine.Publication.Safety
import NestWeaver.Engine.Publication.Sessions
import NestWeaver.Engine.Publication.Selection
import NestWeaver.Engine.Publication.Activation
import NestWeaver.Engine.Publication.Pruning
import NestWeaver.Engine.ParsedCache.Files
import NestWeaver.Engine.ParsedCache.System
import NestWeaver.Engine.ParsedCache.Reading
import NestWeaver.Engine.ParsedCache.Runs
import NestWeaver.Engine.ParsedCache.Durability
import NestWeaver.Engine.ParsedCache.Sources
