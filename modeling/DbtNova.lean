import DbtNova.Error
import DbtNova.Text
import DbtNova.SqlAst
import DbtNova.SqlGate
import DbtNova.Json
import DbtNova.SqlLexer
import DbtNova.RecipePlaceholder
import DbtNova.TransitionSystem
import DbtNova.Config
import DbtNova.Fingerprint
import DbtNova.ManifestSignature
import DbtNova.StorageProtocol
import DbtNova.StorageSafety
import DbtNova.ManifestHandle
import DbtNova.Wildcard
import DbtNova.PathIndex
import DbtNova.BoundedCollect
import DbtNova.Warehouse
import DbtNova.Boundary
import DbtNova.EntityMeta
import DbtNova.ExtendedMeta
import DbtNova.SearchIndex
import DbtNova.EmbeddingText
import DbtNova.SearchReuse
import DbtNova.DuckDbPool
import DbtNova.CircuitBreaker
import DbtNova.Bootstrap
import DbtNova.VectorCache
import DbtNova.UnixPath
import DbtNova.StorageRoot
import DbtNova.FileTree
import DbtNova.Materialize
import DbtNova.StoragePruning
import DbtNova.Placeholders
import DbtNova.NamedParameters
import DbtNova.SqlLiterals
import DbtNova.PrintedSql
import DbtNova.SqlStructure
import DbtNova.ToolTrace
import DbtNova.Paging
import DbtNova.RankFusion
import DbtNova.SearchPages
import DbtNova.LabelCorrecting
import DbtNova.Lineage
import DbtNova.ManifestCache
import DbtNova.HttpManifest
import DbtNova.DbfsManifest
import DbtNova.KeyedSets
import DbtNova.ManifestParse
import DbtNova.ManifestSteps
import DbtNova.ManifestOrder
import DbtNova.AccumulatorConsistency
import DbtNova.ResponseBudget
import DbtNova.ResponseBudgetBound
import DbtNova.EvalTelemetry
import DbtNova.EvalGate
import DbtNova.EvalGateRuns
import DbtNova.WarmStart
import DbtNova.WarmStartParts
import DbtNova.WarmStartRuns
import DbtNova.DepthFirst
import DbtNova.Validation
import DbtNova.LineageCache
import DbtNova.Glob
import DbtNova.ManifestPruning
import DbtNova.RecipeLookup
import DbtNova.RecipeSpecs
import DbtNova.JinjaScan
import DbtNova.RecipePreflight
import DbtNova.ResponseSize
import DbtNova.Redaction
import DbtNova.RedactionSecrets
import DbtNova.CircuitCalls
import DbtNova.RateLimiter
import DbtNova.SanitizeUri
import DbtNova.PruneDirs
import DbtNova.EntityFiles
import DbtNova.JinjaLexer
import DbtNova.SqlComparison
import DbtNova.ConjunctOrder
import DbtNova.QuerySoundness
import DbtNova.ColumnDefinition
import DbtNova.RewritePasses
import DbtNova.AliasSubstitution
import DbtNova.RewriteChains
import DbtNova.AliasChains
import DbtNova.BreadthFirst
import DbtNova.ColumnMatching
import DbtNova.ColumnLineage
import DbtNova.ColumnLineageRows
import DbtNova.ColumnMatchOrder
import DbtNova.StableSort
import DbtNova.ColumnLineageOrder
import DbtNova.LineageEdges
import DbtNova.Tally
import DbtNova.Impact
import DbtNova.LevelSearch
import DbtNova.ContextLineage
import DbtNova.IndicatorRows
import DbtNova.Reranking
import DbtNova.ResourceFilter
import DbtNova.StoreScan
import DbtNova.RowPages
import DbtNova.ColumnRows
import DbtNova.IndicatorInventory
import DbtNova.Undocumented
import DbtNova.RowListings
import DbtNova.SemanticMatches
import DbtNova.NameJoin
import DbtNova.IndicatorMatches
import DbtNova.BitFlips
import DbtNova.AnnSearch
import DbtNova.JsonFields
import DbtNova.MetaAccessors
import DbtNova.StepLoop
import DbtNova.BigqueryPaging
import DbtNova.ConcurrencyLimiter
import DbtNova.BootstrapShortcut
import DbtNova.Binary64
import DbtNova.TestCoverage
import DbtNova.ArchiveLimits
import DbtNova.StateOutcome
import DbtNova.AtomicExtraction
import DbtNova.ResponsePages
import DbtNova.EmbeddingSources
import DbtNova.EditDistance
import DbtNova.StringDistance
import DbtNova.IdentifierMatches
import DbtNova.PhraseContainment
import DbtNova.TokenJoin
import DbtNova.LeftmostChoice
import DbtNova.CivilCalendar
import DbtNova.InstantRendering
import DbtNova.LatencyMetrics
import DbtNova.PlaceholderScan
import DbtNova.KeyedWrites
import DbtNova.ParameterOrder
import DbtNova.QuotedParens
import DbtNova.MacroCalls
import DbtNova.MacroExtraction
import DbtNova.TraceRead
import DbtNova.TraceIndex
import DbtNova.DatabricksRuns
import DbtNova.SnowflakeSessions
import DbtNova.JwtKeys
import DbtNova.TraceRedaction
import DbtNova.TraceSummary
