import Deduction.Main
import Deduction.Session
import Deduction.Proofs.ArityInference
import Deduction.Proofs.BoundNames
import Deduction.Proofs.CheckOutcomes
import Deduction.Proofs.Coherence
import Deduction.Proofs.Covering
import Deduction.Proofs.Environments
import Deduction.Proofs.ExclusiveHold
import Deduction.Proofs.Filling
import Deduction.Proofs.Handles
import Deduction.Proofs.Insertions
import Deduction.Proofs.Numbering
import Deduction.Proofs.Rejection
import Deduction.Proofs.ReloadedVerdicts
import Deduction.Proofs.Resaving
import Deduction.Proofs.Reversal
import Deduction.Proofs.RuleAnswers
import Deduction.Proofs.Spacing
import Deduction.Proofs.ValidatedRules
import Deduction.Proofs.VerdictLocality
