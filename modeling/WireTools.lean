import WireTools.Outcome
import WireTools.Collections
import WireTools.BindConfig
import WireTools.PortPicker
import WireTools.ResolveBinding
import WireTools.ResolveSoundness
import WireTools.PinSafety
import WireTools.PinTheft
import WireTools.BindRegistry
import WireTools.RegistryProcesses
import WireTools.Json
import WireTools.ClioRunner
import WireTools.ResendDecision
import WireTools.JsonPrint
import WireTools.NodeConfig
import WireTools.KeyStore
import WireTools.KeyFile
import WireTools.BuildEngine
import WireTools.BuildInvariants
import WireTools.FailFast
import WireTools.Verdicts
import WireTools.StepCeiling
import WireTools.NonceCounters
import WireTools.EnvelopeCodec
import WireTools.EnvelopeInjective
import WireTools.Shell
import WireTools.StartScript
import WireTools.StartScriptFidelity
import WireTools.SecretArgs
import WireTools.QueryHost
import WireTools.QueryHostLauncher
import WireTools.LauncherInvariants
import WireTools.LauncherRuns
import WireTools.LauncherPorts
import WireTools.QueryPortClient
import WireTools.QueryProtocol
import WireTools.Comparators
import WireTools.Doubles
import WireTools.CellFormatter
import WireTools.CellOrder
import WireTools.ResultView
import WireTools.MaximalMunch
import WireTools.ParserCode
import WireTools.WireQueryLexer
import WireTools.WireQueryParser
import WireTools.QueryText
import WireTools.QueryFormatter
import WireTools.DelimitedReaders
import WireTools.DelimitedText
import WireTools.CatalogFreshness
import WireTools.QueryExecution
import WireTools.QueryService
import WireTools.ResultTabInvariants
import WireTools.Lines
import WireTools.Utf8
import WireTools.LineIndex
import WireTools.LogTail
import WireTools.LogTailDelivery
import WireTools.LogTailRuns
import WireTools.StreamMultiplex
import WireTools.StreamInvariants
import WireTools.StreamSteps
import WireTools.StreamRuns
import WireTools.Files
import WireTools.EnvelopeStorageKey
import WireTools.EnvelopeStore
import WireTools.EnvelopeWrites
import WireTools.EnvelopeWatch
import WireTools.EnvelopeWatchRuns
import WireTools.MetadataCodec
import WireTools.EnvelopeRoutes
import WireTools.EnvelopeDelivery
import WireTools.LivenessStreams
import WireTools.DebuggingSubscription
import WireTools.Chunks
import WireTools.LineIndexRebuild
import WireTools.LogTailing
import WireTools.NodeNames
import WireTools.NodeTopology
import WireTools.EpochCache
import WireTools.MessageChain
import WireTools.Tally
import WireTools.DclaimSeed
import WireTools.SeedConservation
import WireTools.PortBindings
import WireTools.FreeStanding
import WireTools.OperatorNumbers
import WireTools.StaleScan
import WireTools.Paths
import WireTools.DebuggingAccess
import WireTools.QueryHistory
import WireTools.YieldDistribution
import WireTools.Calendar
import WireTools.Timestamps
import WireTools.PlainValues
import WireTools.ProcessOutput
import WireTools.SerialQueues
import WireTools.StepExtraRecorder
import WireTools.HtmlTokens
import WireTools.Reports
import WireTools.ReportCsv
import WireTools.SurrogatePairs
import WireTools.TextBuffer
import WireTools.QueryRetries
import WireTools.SquareRoots
import WireTools.StructFields
import WireTools.Newlines
import WireTools.XmlReader
import WireTools.XmlResults
import WireTools.ReportHtml
import WireTools.Characters
import WireTools.LexerPositions
import WireTools.SemanticTokens
import WireTools.CompletionProvider
import WireTools.BatchLedgers
import WireTools.LcoImportBatches
import WireTools.LcoImportGates
import WireTools.FinalityRuns
import WireTools.CreateOutcomes
import WireTools.BatchOperatorSchedule
import WireTools.ProcessCoverage
