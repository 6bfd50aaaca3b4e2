import AndroidAudit.Audit.Log
import AndroidAudit.Audit.Report
import AndroidAudit.Audit.RuleSet
import AndroidAudit.Audit.Scan
import AndroidAudit.Audit.Units
import AndroidAudit.Audit.UnitsFile
import AndroidAudit.Command.Basic
import AndroidAudit.Command.Project
import AndroidAudit.Command.Scan
import AndroidAudit.CommandLine.Arguments
import AndroidAudit.CommandLine.LogFilter
import AndroidAudit.CommandLine.Run
import AndroidAudit.Decimal.Layout
import AndroidAudit.Decimal.Reading
import AndroidAudit.Decimal.Shortest
import AndroidAudit.Digest.Sha256
import AndroidAudit.Document.Buffered
import AndroidAudit.Document.Codec
import AndroidAudit.Document.JsonReading
import AndroidAudit.Document.JsonWriting
import AndroidAudit.Document.Misfit
import AndroidAudit.Document.Shape
import AndroidAudit.Document.YamlReading
import AndroidAudit.FileTree.Basic
import AndroidAudit.FileTree.Change
import AndroidAudit.FileTree.Difference
import AndroidAudit.FileTree.Lookup
import AndroidAudit.FileTree.Walk
import AndroidAudit.Format.Code
import AndroidAudit.Format.Finding
import AndroidAudit.Format.Project
import AndroidAudit.Format.Report
import AndroidAudit.Json.Basic
import AndroidAudit.Json.Fault
import AndroidAudit.Json.Number
import AndroidAudit.Json.Place
import AndroidAudit.Json.Quotation
import AndroidAudit.Json.Source
import AndroidAudit.Main
import AndroidAudit.Model.Code
import AndroidAudit.Model.Finding
import AndroidAudit.Model.Issue
import AndroidAudit.Model.TypeGraph
import AndroidAudit.Model.TypeName
import AndroidAudit.Names.Sorted
import AndroidAudit.Path.Basic
import AndroidAudit.Pattern.Basic
import AndroidAudit.Pattern.CharSet
import AndroidAudit.Pattern.Meaning
import AndroidAudit.Pattern.Reading
import AndroidAudit.Pattern.Written
import AndroidAudit.Project.Config
import AndroidAudit.Project.Layout
import AndroidAudit.Project.Load
import AndroidAudit.Proofs.AuditSessions
import AndroidAudit.Proofs.BodyExecution
import AndroidAudit.Proofs.CallReports
import AndroidAudit.Proofs.CanonicalFindings
import AndroidAudit.Proofs.CommandRuns
import AndroidAudit.Proofs.ConfigGating
import AndroidAudit.Proofs.DocumentTrees
import AndroidAudit.Proofs.FailedCommands
import AndroidAudit.Proofs.FindingOrder
import AndroidAudit.Proofs.FlaggedFiles
import AndroidAudit.Proofs.JsonLiterals
import AndroidAudit.Proofs.JsonScanning
import AndroidAudit.Proofs.JsonTokens
import AndroidAudit.Proofs.JsonTrees
import AndroidAudit.Proofs.KeptFindings
import AndroidAudit.Proofs.LetterCase
import AndroidAudit.Proofs.LinklessTrees
import AndroidAudit.Proofs.MemberOrder
import AndroidAudit.Proofs.NativeDetection
import AndroidAudit.Proofs.NativePlacement
import AndroidAudit.Proofs.NativeVerdict
import AndroidAudit.Proofs.OwnFiles
import AndroidAudit.Proofs.PathNames
import AndroidAudit.Proofs.ProjectLoading
import AndroidAudit.Proofs.Rearrangement
import AndroidAudit.Proofs.Relocation
import AndroidAudit.Proofs.Reordering
import AndroidAudit.Proofs.ReportDelivery
import AndroidAudit.Proofs.RoundTrip
import AndroidAudit.Proofs.ScanOutcomes
import AndroidAudit.Proofs.ShapeReading
import AndroidAudit.Proofs.Sharding
import AndroidAudit.Proofs.ShownPaths
import AndroidAudit.Proofs.Spelling
import AndroidAudit.Proofs.StableOutput
import AndroidAudit.Proofs.StandardRules
import AndroidAudit.Proofs.TextOrder
import AndroidAudit.Proofs.TreeChanges
import AndroidAudit.Proofs.TreeEffects
import AndroidAudit.Proofs.TreeLookup
import AndroidAudit.Proofs.TreeWalk
import AndroidAudit.Proofs.TrivialBodies
import AndroidAudit.Proofs.TrustReports
import AndroidAudit.Proofs.TypeAncestry
import AndroidAudit.Proofs.TypeLinks
import AndroidAudit.Proofs.UndisturbedAudits
import AndroidAudit.Rule.NativeCode
import AndroidAudit.Rule.TrustManager
import AndroidAudit.Rule.UnsafeCall
import AndroidAudit.Text.AsciiCase
import AndroidAudit.Text.Blank
import AndroidAudit.Text.Hex
import AndroidAudit.Text.Quoted
import AndroidAudit.Text.Terminal
import AndroidAudit.Text.Unprintable
import AndroidAudit.Text.Utf8
import AndroidAudit.Time.Moment
import AndroidAudit.Yaml.Indicator
import AndroidAudit.Yaml.Parse
import AndroidAudit.Yaml.Problem
import AndroidAudit.Yaml.Scalar
import AndroidAudit.Yaml.Sense
import AndroidAudit.Yaml.Source
import AndroidAudit.Yaml.Tag
import AndroidAudit.Yaml.Token
import AndroidAudit.Yaml.TokenStream
import AndroidAudit.Yaml.Tree
