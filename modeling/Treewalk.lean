import Treewalk.Main
import Treewalk.Proofs.LocalRenaming
import Treewalk.Proofs.NamedAccess
import Treewalk.Proofs.ReturnSafety
import Treewalk.Proofs.PromptTranscript
import Treewalk.Proofs.ExpressionIds
import Treewalk.Proofs.LayoutIndependence
import Treewalk.Proofs.FaultOrder
import Treewalk.Proofs.ScopeRules
import Treewalk.Proofs.FaultReports
import Treewalk.Proofs.ScopeLaws
import Treewalk.Proofs.MethodAnswers
import Treewalk.Proofs.LoopLowering
import Treewalk.Proofs.DivisorGuard
import Treewalk.Proofs.NumberTexts
import Treewalk.Proofs.KnownFaults
import Treewalk.Proofs.DocumentTrees
import Treewalk.Proofs.UniqueForms
