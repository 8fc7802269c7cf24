import Entailment.Main
import Entailment.Pool
import Entailment.Proofs.AtomicFailure
import Entailment.Proofs.FirstOrder.EliminatedPredicates
import Entailment.Proofs.FirstOrder.FactAnswers
import Entailment.Proofs.FirstOrder.OrderWidth
import Entailment.Proofs.FirstOrder.PrintedTerms
import Entailment.Proofs.FirstOrder.ProofModes
import Entailment.Proofs.FirstOrder.QueryIndependence
import Entailment.Proofs.FirstOrder.RecordedProofs
import Entailment.Proofs.FirstOrder.RepeatedTelling
import Entailment.Proofs.FirstOrder.ReportingOptions
import Entailment.Proofs.FirstOrder.Scoping
import Entailment.Proofs.FirstOrder.StandardizedApart
import Entailment.Proofs.Formula.TruthTables
import Entailment.Proofs.KnowledgeBaseAgreement
import Entailment.Proofs.Propositional.ReadBack
import Entailment.Proofs.Sat.SolverAnswers
import Entailment.Text.Quoted
