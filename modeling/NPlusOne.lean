import NPlusOne.Analysis
import NPlusOne.Base64
import NPlusOne.Cmake.CompileDatabase
import NPlusOne.Cmake.ListFile
import NPlusOne.Command
import NPlusOne.CommandLine
import NPlusOne.Double
import NPlusOne.Double.Format
import NPlusOne.Double.Shortest
import NPlusOne.Extraction
import NPlusOne.Failure
import NPlusOne.FileTree
import NPlusOne.FileTree.Glob
import NPlusOne.FileTree.Resolve
import NPlusOne.FrontEnd
import NPlusOne.FrontEnd.Library
import NPlusOne.Json
import NPlusOne.Log
import NPlusOne.Log.Layout
import NPlusOne.Log.Shape
import NPlusOne.Log.Sink
import NPlusOne.LoopWalk
import NPlusOne.Main
import NPlusOne.Memo
import NPlusOne.Moment
import NPlusOne.Numeral
import NPlusOne.Path
import NPlusOne.Program.Exchange
import NPlusOne.Program.Kind
import NPlusOne.Program.Node
import NPlusOne.Progress
import NPlusOne.Project
import NPlusOne.Proofs.AnalysisAccount
import NPlusOne.Proofs.AnalysisChecks
import NPlusOne.Proofs.AnalysisContainment
import NPlusOne.Proofs.AnalysisGroundwork
import NPlusOne.Proofs.AnalysisHistory
import NPlusOne.Proofs.AnalysisHome
import NPlusOne.Proofs.AnalysisParts
import NPlusOne.Proofs.ArgumentFlags
import NPlusOne.Proofs.CallListing
import NPlusOne.Proofs.CommandEnding
import NPlusOne.Proofs.CommandSpelling
import NPlusOne.Proofs.CompileEntries
import NPlusOne.Proofs.DatabaseOrder
import NPlusOne.Proofs.DefinitionIndex
import NPlusOne.Proofs.DefinitionSites
import NPlusOne.Proofs.DiscoveryReturns
import NPlusOne.Proofs.ExtractedNodes
import NPlusOne.Proofs.FileContent
import NPlusOne.Proofs.FileWalk
import NPlusOne.Proofs.GeneratedSettings
import NPlusOne.Proofs.LinkResolution
import NPlusOne.Proofs.ListCommands
import NPlusOne.Proofs.LoopSites
import NPlusOne.Proofs.MemoHistory
import NPlusOne.Proofs.NodeSites
import NPlusOne.Proofs.OpenedNodes
import NPlusOne.Proofs.PathNormal
import NPlusOne.Proofs.PathSpelling
import NPlusOne.Proofs.PoolRun
import NPlusOne.Proofs.ProjectMembership
import NPlusOne.Proofs.QueryReach
import NPlusOne.Proofs.RegistryHistory
import NPlusOne.Proofs.ReportExport
import NPlusOne.Proofs.ResolverAgreement
import NPlusOne.Proofs.ResolverOpenings
import NPlusOne.Proofs.ResolverRun
import NPlusOne.Proofs.ResolverSession
import NPlusOne.Proofs.ResolverSteady
import NPlusOne.Proofs.SearchAcyclic
import NPlusOne.Proofs.SearchDepth
import NPlusOne.Proofs.SearchExact
import NPlusOne.Proofs.SearchFailure
import NPlusOne.Proofs.SearchFrame
import NPlusOne.Proofs.SearchFuel
import NPlusOne.Proofs.SearchHome
import NPlusOne.Proofs.SearchMemo
import NPlusOne.Proofs.SearchMirror
import NPlusOne.Proofs.SearchOnce
import NPlusOne.Proofs.SearchOpenings
import NPlusOne.Proofs.SearchParts
import NPlusOne.Proofs.SearchRepeat
import NPlusOne.Proofs.SearchReports
import NPlusOne.Proofs.SearchRun
import NPlusOne.Proofs.SearchSound
import NPlusOne.Proofs.SearchSteps
import NPlusOne.Proofs.SearchTrace
import NPlusOne.Proofs.SearchTraversal
import NPlusOne.Proofs.SettingsFile
import NPlusOne.Proofs.SharedSearch
import NPlusOne.Proofs.SortedTexts
import NPlusOne.Proofs.SourceListing
import NPlusOne.Proofs.TaskMirror
import NPlusOne.Proofs.TaskRun
import NPlusOne.Proofs.TaskShared
import NPlusOne.Proofs.TreeOutline
import NPlusOne.Proofs.TypeChain
import NPlusOne.Proofs.TypeLaws
import NPlusOne.Proofs.TypeRegistration
import NPlusOne.Proofs.TypeShape
import NPlusOne.Proofs.TypeTable
import NPlusOne.Proofs.UnitHistory
import NPlusOne.Proofs.UnitLoading
import NPlusOne.Proofs.WalkOrder
import NPlusOne.Proofs.YamlLayout
import NPlusOne.Proofs.YamlNodes
import NPlusOne.Proofs.YamlNumber
import NPlusOne.Proofs.YamlPage
import NPlusOne.Proofs.YamlReading
import NPlusOne.Proofs.YamlScalar
import NPlusOne.Proofs.YamlScan
import NPlusOne.Proofs.YamlTokens
import NPlusOne.Proofs.YamlValues
import NPlusOne.QueryType
import NPlusOne.Report
import NPlusOne.Settings
import NPlusOne.Settings.File
import NPlusOne.ShellWords
import NPlusOne.Task
import NPlusOne.Text
import NPlusOne.Text.Cased
import NPlusOne.Text.LetterCase
import NPlusOne.Text.Lines
import NPlusOne.Text.Lower
import NPlusOne.Text.Printable
import NPlusOne.Text.Quoted
import NPlusOne.Text.Surrogate
import NPlusOne.Text.Utf8
import NPlusOne.Text.WordChar
import NPlusOne.TypeIdentity
import NPlusOne.TypeLookup
import NPlusOne.Value
import NPlusOne.Workbook
import NPlusOne.Workbook.Sheet
import NPlusOne.WorkerPool
import NPlusOne.Yaml.Atom
import NPlusOne.Yaml.Block
import NPlusOne.Yaml.Input
import NPlusOne.Yaml.Load
import NPlusOne.Yaml.Members
import NPlusOne.Yaml.Node
import NPlusOne.Yaml.Plain
import NPlusOne.Yaml.Scalar
import NPlusOne.Yaml.Scan
import NPlusOne.Yaml.Token
