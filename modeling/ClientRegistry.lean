import ClientRegistry.Main
import ClientRegistry.Watch.Schedule
import ClientRegistry.Proofs.Text.Case
import ClientRegistry.Proofs.Path.Components
import ClientRegistry.Proofs.Path.Names
import ClientRegistry.Proofs.Path.NormalForm
import ClientRegistry.Proofs.Path.Import
import ClientRegistry.Proofs.Path.Spelling
import ClientRegistry.Proofs.FileTree.Walk
import ClientRegistry.Proofs.FileTree.Edit
import ClientRegistry.Proofs.FileTree.Listing
import ClientRegistry.Proofs.Work
import ClientRegistry.Proofs.Manifest.CleanSafety
import ClientRegistry.Proofs.Service.Grammar
import ClientRegistry.Proofs.Service.FirstDeclaration
import ClientRegistry.Proofs.Service.Partition
import ClientRegistry.Proofs.Registry.FirstServices
import ClientRegistry.Proofs.Registry.MemberNames
import ClientRegistry.Proofs.Code.Layout
import ClientRegistry.Proofs.Registry.Coherence
import ClientRegistry.Proofs.Code.ModuleNames
import ClientRegistry.Proofs.Service.Constant
import ClientRegistry.Proofs.Registry.BoundNames
import ClientRegistry.Proofs.Generation.Stages
import ClientRegistry.Proofs.Generation.Imports
import ClientRegistry.Proofs.Watch.Moves
import ClientRegistry.Proofs.Watch.Coherence
import ClientRegistry.Proofs.Watch.Liveness
import ClientRegistry.Proofs.Watch.Outputs
import ClientRegistry.Proofs.Watch.Causes
import ClientRegistry.Proofs.Watch.Timing
import ClientRegistry.Proofs.Watch.Clock
import ClientRegistry.Proofs.Watch.Bursts
import ClientRegistry.Proofs.FileTree.Entries
import ClientRegistry.Proofs.Path.Ancestors
import ClientRegistry.Proofs.FileTree.Directories
import ClientRegistry.Proofs.Generation.Course
import ClientRegistry.Proofs.Generation.TemporaryTemplate
import ClientRegistry.Proofs.FileTree.Cleaning
import ClientRegistry.Proofs.Generation.FailedCycle
import ClientRegistry.Proofs.FileTree.Writing
import ClientRegistry.Proofs.Generation.SuccessfulCycle
import ClientRegistry.Proofs.FileTree.NamedEntry
import ClientRegistry.Proofs.FileTree.Located
import ClientRegistry.Proofs.Generation.TwinTemplates
import ClientRegistry.Proofs.Generation.CleanCycle
import ClientRegistry.Proofs.Watch.Rejected
import ClientRegistry.Proofs.Watch.Termination
import ClientRegistry.Proofs.Shell.Reading
import ClientRegistry.Proofs.Shell.Quoting
import ClientRegistry.Proofs.Text.ByteOrder
import ClientRegistry.Proofs.Generation.Collection
import ClientRegistry.Proofs.Manifest.InProject
import ClientRegistry.Proofs.Generation.CommandLine
import ClientRegistry.Proofs.Service.ClosestMiss
import ClientRegistry.Proofs.Registry.ImportLines
import ClientRegistry.Proofs.FileTree.Reading
import ClientRegistry.Proofs.CommandLine.Overrides
import ClientRegistry.Proofs.Path.ImportedPlace
import ClientRegistry.Proofs.FileTree.RealWay
import ClientRegistry.Proofs.Generation.CleanedPlace
import ClientRegistry.Proofs.FileTree.WriteRules
import ClientRegistry.Proofs.Watch.Acceptance
import ClientRegistry.Proofs.Manifest.KeyLine
import ClientRegistry.Proofs.Generation.DefaultTemplate
import ClientRegistry.Proofs.Plugin.Driving
import ClientRegistry.Proofs.Plugin.FirstCycle
import ClientRegistry.Proofs.Code.Indentation
import ClientRegistry.Proofs.Code.Sections
import ClientRegistry.Proofs.Path.Canonical
import ClientRegistry.Proofs.Report.ShownPaths
