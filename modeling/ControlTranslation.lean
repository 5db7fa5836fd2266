import ControlTranslation.ParserBudget
import ControlTranslation.RegexGuarantees
import ControlTranslation.LabelSoundness
import ControlTranslation.Lineage
import ControlTranslation.ProducerIntegrity
import ControlTranslation.CallbackOutbox
import ControlTranslation.PublicationCutoff
import ControlTranslation.LifecycleWorkers
import ControlTranslation.GoPublication
import ControlTranslation.CompilerAgreement
import ControlTranslation.PayloadFolding
import ControlTranslation.SemanticGates
import ControlTranslation.LiteralShortcut
import ControlTranslation.SyncIdempotency
import ControlTranslation.RouteNarrowing
import ControlTranslation.ObligationCoverage
import ControlTranslation.SelectorCarriage
import ControlTranslation.JsonFieldRule
import ControlTranslation.StringOperators
import ControlTranslation.AuthoritativeRules
import ControlTranslation.EngineTotality
import ControlTranslation.CallbackDispatch
import ControlTranslation.JndiCompaction
import ControlTranslation.LifecycleCreation
import ControlTranslation.CoverageTotality
import ControlTranslation.JsonxNesting
import ControlTranslation.GoIdempotency
import ControlTranslation.GoCompletion
import ControlTranslation.StoredTime
import ControlTranslation.JsonPointer
import ControlTranslation.TokenQuoting
import ControlTranslation.GoClaim
import ControlTranslation.GrammarLabels
import ControlTranslation.ConditionValues
import ControlTranslation.KeyOrder
import ControlTranslation.ModelSchema
import ControlTranslation.RequestDigests
import ControlTranslation.DigestAgreement
import ControlTranslation.SharedKeySpace
import ControlTranslation.ResultIntegrity
import ControlTranslation.ResolutionFailures
import ControlTranslation.JoinLineage
import ControlTranslation.ProofLoopInvocation
import ControlTranslation.SharedAnswers
import ControlTranslation.ResolvedLoops
import ControlTranslation.RunListing
import ControlTranslation.SyncCompletedRuns
