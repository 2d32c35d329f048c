import BotScript.Literal
import BotScript.Value.Array
import BotScript.Value.Operator
import BotScript.Host.Workbench
import BotScript.Program
import BotScript.Facade
import BotScript.CommandLine
import BotScript.Main
import BotScript.Proofs.Evaluation
import BotScript.Proofs.FinalBlocks
import BotScript.Proofs.Resaving
import BotScript.Proofs.Slicing
import BotScript.Proofs.Tokenization
import BotScript.Proofs.WellFormedTrees
import BotScript.Proofs.SnapshotBytes
import BotScript.Proofs.Formulas
import BotScript.Proofs.Precedence
import BotScript.Proofs.JumpTargets
import BotScript.Proofs.StructuredPrograms
import BotScript.Proofs.NormalMachine
import BotScript.Proofs.JumpArrivals
import BotScript.Proofs.BracedStatements
import BotScript.Proofs.ItemBoundaries
import BotScript.Proofs.PassBoundaries
import BotScript.Proofs.Lifecycle
import BotScript.Proofs.StopRequests
import BotScript.Proofs.BoundedSlices
import BotScript.Proofs.YieldedConstants
import BotScript.Proofs.OverloadChoice
import BotScript.Proofs.TwinPrograms
import BotScript.Proofs.DeclaredLimits
import BotScript.Proofs.KnownParts
import BotScript.Proofs.Assignability
import BotScript.Proofs.OperatorSteps
import BotScript.Proofs.FoldedErrors
import BotScript.Proofs.ExactIntegers
import BotScript.Proofs.LexicalGrammar
import BotScript.Proofs.TokenSignatures
import BotScript.Proofs.Respacing
import BotScript.Proofs.StringLiterals
import BotScript.Proofs.NumberLiterals
import BotScript.Proofs.LiteralEndings
import BotScript.Proofs.CallBindings
import BotScript.Proofs.RestoredFrames
import BotScript.Proofs.CallStages
import BotScript.Proofs.CallTurns
import BotScript.Proofs.CallMoves
import BotScript.Proofs.FieldSetups
import BotScript.Proofs.CallActions
import BotScript.Proofs.CallCourses
import BotScript.Proofs.CallOrder
import BotScript.Proofs.LexicalScoping
import BotScript.Proofs.LawfulSteps
import BotScript.Proofs.ReportedSpans
import BotScript.Proofs.ProtectedMembers
import BotScript.Proofs.FieldLayouts
import BotScript.Proofs.DispatchTables
import BotScript.Proofs.LineReading
import BotScript.Proofs.FileOpening
import BotScript.Proofs.FileOwnership
import BotScript.Proofs.WrittenLines
import BotScript.Proofs.Substrings
