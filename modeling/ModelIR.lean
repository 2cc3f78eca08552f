import ModelIR.CommandLine.Program
import ModelIR.Files.Store
import ModelIR.Main
import ModelIR.Pass.Pipeline
import ModelIR.RunConfig.Load
import ModelIR.Proofs.Lookup
import ModelIR.Proofs.EditRun
import ModelIR.Proofs.FreshNames
import ModelIR.Proofs.GraphEdits
import ModelIR.Proofs.Neighbours
import ModelIR.Proofs.Splicing
import ModelIR.Proofs.SplicedGraph
import ModelIR.Proofs.Chains
import ModelIR.Proofs.SpliceEffects
import ModelIR.Proofs.Preprocessing
import ModelIR.Proofs.InputMatches
import ModelIR.Proofs.ScaledInputs
import ModelIR.Proofs.NormalizedInputs
import ModelIR.Proofs.StandardPipeline
import ModelIR.Proofs.DepthFirst
import ModelIR.Proofs.PassOrder
import ModelIR.Proofs.Lexing
import ModelIR.Proofs.WrittenLexemes
import ModelIR.Proofs.WrittenTokens
import ModelIR.Proofs.ReadTokens
import ModelIR.Proofs.Coalescing
import ModelIR.Proofs.Assembling
import ModelIR.Proofs.WrittenDocuments
import ModelIR.Proofs.SoundTokens
import ModelIR.Proofs.ReadDocuments
import ModelIR.Proofs.SavedFiles
import ModelIR.Proofs.DocumentRecords
import ModelIR.Proofs.PathCharacters
import ModelIR.Proofs.PlainRecords
import ModelIR.Proofs.FileViews
import ModelIR.Proofs.GenerationRun
import ModelIR.Proofs.RepeatedRuns
import ModelIR.Proofs.ReopenedFiles
import ModelIR.Proofs.SavedDocuments
import ModelIR.Proofs.UnreadableDocuments
import ModelIR.Proofs.StoredDocuments
import ModelIR.Proofs.RereadRuns
import ModelIR.Proofs.WalkOrder
import ModelIR.Proofs.ScanSelection
import ModelIR.Proofs.FirstFailure
import ModelIR.Proofs.GraphCalls
import ModelIR.Proofs.Alternation
import ModelIR.Proofs.Matching
import ModelIR.Proofs.StaleMatches
import ModelIR.Proofs.ObservedRuns
import ModelIR.Proofs.RunProtocol
import ModelIR.Proofs.StoredFiles
import ModelIR.Proofs.WritePhase
import ModelIR.Proofs.SharedDocuments
import ModelIR.Proofs.Rerouting
import ModelIR.Proofs.FailedEdits
import ModelIR.Proofs.RefusedSplices
import ModelIR.Proofs.ReportedRecords
import ModelIR.Proofs.DecodedText
import ModelIR.Proofs.PathNormalForm
import ModelIR.Proofs.PathParts
import ModelIR.Proofs.LayoutSlots
import ModelIR.Proofs.PathSpellings
import ModelIR.Proofs.RootedPaths
import ModelIR.Proofs.AppendedRecords
import ModelIR.Proofs.DrawnFigures
import ModelIR.Proofs.NameSearch
import ModelIR.Proofs.SplitParts
import ModelIR.Proofs.CommaItems
import ModelIR.Proofs.WrittenArguments
import ModelIR.Proofs.RecordedPaths
import ModelIR.Xml.Doctype
import ModelIR.Xml.Encoding
