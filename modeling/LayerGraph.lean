import LayerGraph.Main
import LayerGraph.Proofs.GraphInvariant
import LayerGraph.Proofs.Places
import LayerGraph.Proofs.SearchRun
import LayerGraph.Proofs.Circuits
import LayerGraph.Proofs.FirstCycle
import LayerGraph.Proofs.DraftMoves
import LayerGraph.Proofs.DraftInvariant
import LayerGraph.Proofs.OrderOfGraph
import LayerGraph.Proofs.ListedCycles
import LayerGraph.Proofs.LayerCircuits
import LayerGraph.Proofs.LeastOrder
import LayerGraph.Proofs.Worklist
import LayerGraph.Proofs.Stalls
import LayerGraph.Proofs.StoredRows
import LayerGraph.Proofs.SyncOutcome
import LayerGraph.Proofs.MergedRecords
import LayerGraph.Proofs.DeclaredGraph
import LayerGraph.Proofs.SameGraph
import LayerGraph.Proofs.RecordOrder
import LayerGraph.Proofs.CarriedOrders
import LayerGraph.Proofs.WriteBackOutcome
import LayerGraph.Proofs.JsonText
import LayerGraph.Proofs.RecordText
import LayerGraph.Proofs.ReadLength
import LayerGraph.Proofs.RecordSize
import LayerGraph.Proofs.FolderPath
import LayerGraph.Proofs.SavedFile
import LayerGraph.Proofs.FolderBuild
import LayerGraph.Proofs.Rebuild
import LayerGraph.Proofs.Dependents
import LayerGraph.Proofs.ShortestPaths
import LayerGraph.Proofs.TypeCircles
import LayerGraph.Proofs.CopiedGraph
import LayerGraph.Proofs.Distance
import LayerGraph.Proofs.OtherFiles
import LayerGraph.Proofs.StoreCalls
import LayerGraph.Proofs.FolderMemory
import LayerGraph.Proofs.FolderRun
import LayerGraph.Proofs.FolderReads
import LayerGraph.Proofs.ProjectReads
import LayerGraph.Proofs.SameRecords
import LayerGraph.Proofs.BuildRuns
import LayerGraph.Proofs.DryRun
import LayerGraph.Proofs.OverlappingRuns
import LayerGraph.Proofs.RewrittenFile
import LayerGraph.Proofs.OverlappingReads
import LayerGraph.Proofs.RepeatedWarnings
import LayerGraph.Proofs.Degrees
import LayerGraph.Proofs.ReadBack
import LayerGraph.Proofs.GraphContents
import LayerGraph.Proofs.IndexedGraph
import LayerGraph.Proofs.FingerprintText
import LayerGraph.Proofs.DrawnGraph
import LayerGraph.Proofs.Inheritance
import LayerGraph.Proofs.BuildWarnings
import LayerGraph.Proofs.CreatedDirectories
import LayerGraph.Proofs.PartialSave
import LayerGraph.Proofs.ResumedSave
import LayerGraph.Proofs.KeyText
import LayerGraph.Proofs.DegreeThreshold
import LayerGraph.Proofs.KnownNodes
import LayerGraph.Proofs.HopLimit
import LayerGraph.Proofs.LineByLine
import LayerGraph.Proofs.ProjectPaths
import LayerGraph.Proofs.Traversal
import LayerGraph.Graph.Indexed
