import DualModule.Blank
import DualModule.CommandLine.Arguments
import DualModule.CommandLine.Command
import DualModule.CommandLine.Help
import DualModule.CommandLine.Outcome
import DualModule.CommandLine.Run
import DualModule.CommandLine.Ways
import DualModule.Config
import DualModule.Decimal.Format
import DualModule.Decimal.Shortest
import DualModule.ExitStatus
import DualModule.FileName
import DualModule.FileTree.Basic
import DualModule.FileTree.Editing
import DualModule.FileTree.Location
import DualModule.FileTree.Operations
import DualModule.FileTree.Resolve
import DualModule.FileTree.Sharing
import DualModule.Generation
import DualModule.Glob.Expand
import DualModule.Glob.Pattern
import DualModule.ImportPass
import DualModule.Json.Document
import DualModule.Json.Numeral
import DualModule.Json.Printer
import DualModule.Main
import DualModule.Ordered
import DualModule.PassError
import DualModule.Path
import DualModule.Pieces
import DualModule.Procedure
import DualModule.Procedure.Contention
import DualModule.Procedure.Interleaving
import DualModule.Procedure.Pool
import DualModule.Procedure.Responder
import DualModule.Procedure.Trace
import DualModule.Procedure.Ways
import DualModule.Proofs.AnyWay
import DualModule.Proofs.Attempt
import DualModule.Proofs.CanonicalSpecifier
import DualModule.Proofs.ConfinedPasses
import DualModule.Proofs.ConfinedWays
import DualModule.Proofs.Confinement
import DualModule.Proofs.Conflict
import DualModule.Proofs.Contention
import DualModule.Proofs.Descent
import DualModule.Proofs.DirectoryChanges
import DualModule.Proofs.DualPlan
import DualModule.Proofs.EditSchedules
import DualModule.Proofs.EditSoundness
import DualModule.Proofs.FreshDirectory
import DualModule.Proofs.GenerateCommand
import DualModule.Proofs.GeneratorRuns
import DualModule.Proofs.GreedySelection
import DualModule.Proofs.Idempotence
import DualModule.Proofs.ImportPass
import DualModule.Proofs.ImportTargets
import DualModule.Proofs.Isolation
import DualModule.Proofs.Keeping
import DualModule.Proofs.Kept
import DualModule.Proofs.LineStructure
import DualModule.Proofs.Location
import DualModule.Proofs.Lookup
import DualModule.Proofs.Normalisation
import DualModule.Proofs.Observation
import DualModule.Proofs.Operations
import DualModule.Proofs.Path
import DualModule.Proofs.PlanCheck
import DualModule.Proofs.PlanContents
import DualModule.Proofs.PlanOrder
import DualModule.Proofs.Regions
import DualModule.Proofs.Relocation
import DualModule.Proofs.RenameCompleteness
import DualModule.Proofs.RenamePass
import DualModule.Proofs.RenamePlan
import DualModule.Proofs.RenameSafety
import DualModule.Proofs.Resolution
import DualModule.Proofs.Scan
import DualModule.Proofs.SecondRun
import DualModule.Proofs.Specifier
import DualModule.Proofs.StageMachine
import DualModule.Proofs.Survey
import DualModule.Proofs.Table
import DualModule.Proofs.TableOrder
import DualModule.Proofs.TemplatePieces
import DualModule.Proofs.Utf8
import DualModule.Proofs.Walk
import DualModule.Proofs.WalkCompleteness
import DualModule.Quoted
import DualModule.RenamePass
import DualModule.RenamePlan
import DualModule.RenameRule
import DualModule.Replacement
import DualModule.Script.Arithmetic
import DualModule.Script.Builtin
import DualModule.Script.Command
import DualModule.Script.Executable
import DualModule.Script.Expansion
import DualModule.Script.Filter
import DualModule.Script.Printing
import DualModule.Script.Run
import DualModule.Script.Shell
import DualModule.Script.Utility
import DualModule.Script.Word
import DualModule.Specifier
import DualModule.Specifier.Resolve
import DualModule.Stage
import DualModule.SystemError
import DualModule.Target
import DualModule.TargetRun
import DualModule.TargetWays
import DualModule.Template
import DualModule.Utf8
import DualModule.Walk
