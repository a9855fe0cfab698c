import CodeAtlas.Api
import CodeAtlas.Crew.Work
import CodeAtlas.Hook.Event
import CodeAtlas.Plan.Tests
import CodeAtlas.Proofs.AcceptedKeys
import CodeAtlas.Proofs.BranchIdentity
import CodeAtlas.Proofs.CalleeNames
import CodeAtlas.Proofs.CodeReaders
import CodeAtlas.Proofs.DownloadPaths
import CodeAtlas.Proofs.EmbeddedPlans
import CodeAtlas.Proofs.FailedComparison
import CodeAtlas.Proofs.ImportTable
import CodeAtlas.Proofs.ImportedFunctions
import CodeAtlas.Proofs.InheritanceEdges
import CodeAtlas.Proofs.InjectedNames
import CodeAtlas.Proofs.ListedEntries
import CodeAtlas.Proofs.PullIntake
import CodeAtlas.Proofs.Reanalysis
import CodeAtlas.Proofs.RefusedIntake
import CodeAtlas.Proofs.RepeatedPlans
import CodeAtlas.Proofs.ResponseNotes
import CodeAtlas.Proofs.RoutedEntries
import CodeAtlas.Proofs.TouchedDefinitions
import CodeAtlas.Proofs.WrittenHunks
import CodeAtlas.Proofs.WrittenTests
import CodeAtlas.Service.Start
import CodeAtlas.Snapshot.Question
import CodeAtlas.Snapshot.Row
import CodeAtlas.Syntax.Node
